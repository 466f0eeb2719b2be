import Blockwork.Command.Arguments
import Blockwork.Command.Lines
import Blockwork.Config.Load
import Blockwork.Files.Document
import Blockwork.Journal.Recorder
import Blockwork.Machine.Execute
import Blockwork.Markup.Yaml.Print

/-!
# Commands

A command takes arguments and files, and leaves a report and files. It finds its configuration,
applies the options, checks the result, and then does one thing: it lists the recorded runs, prints
the steps of one, prints a document as YAML, or runs a document. A document is run only if every
opcode in it routes somewhere. If runs are recorded, the journal is opened before anything runs.
-/

namespace Blockwork

/-- Why a command failed. -/
inductive CommandError where
  | config (e : Config.LoadError)
  | invalid (v : Violation)
  | log (e : FileError)
  | document (e : DocumentError)
  | program (path : String) (e : ParseError)
  | modules (text : String)
  | routing (es : List RoutingError)
  | unopened (e : OpenError)
  | journal (e : JournalError)
  | fault (f : Fault)
  /-- The budget of a loop is used up. -/
  | unfinished

namespace CommandError

/-- The message of a command error. -/
def message : CommandError → String
  | config e => e.message
  | invalid v => "invalid config: " ++ v.message
  | log e => "log file error: " ++ e.message
  | document e => e.message
  | program path e => path ++ ": " ++ e.message
  | modules text => text
  | routing es => "\n".intercalate (es.map RoutingError.message)
  | unopened e => e.message
  | journal e => e.message
  | fault f => f.message
  | unfinished => "the budget of a loop is used up"

/-- The exit code. A tree with an absent node breaks the program off. -/
def exitCode : CommandError → UInt32
  | program _ e => if e.isAbsentNode then 2 else 1
  | _ => 1

/-- What is reported of the error. -/
def report (e : CommandError) : String :=
  match e with
  | log _ => e.message ++ "\n"
  | program _ p => (if p.isAbsentNode then "panic: " else "Error: ") ++ e.message ++ "\n"
  | _ => "Error: " ++ e.message ++ "\n"

end CommandError

/-- What is left of a command: its exit code and what it printed. -/
structure Report where
  exitCode : UInt32 := 0
  output : String := ""
  errors : String := ""
deriving DecidableEq, Inhabited

/-- What a command needs besides arguments and files. -/
structure Occasion where
  now : Nat
  /-- The identifier of the run that the command may record. -/
  runId : String
  /-- How times are written. -/
  moment : Nat → String
  /-- How often an open-ended loop may iterate. -/
  budget : Nat

namespace Command

/-! ### Configuration -/

/-- The configuration of a command before its options are applied. -/
def configured (fs : Files) (a : Arguments) : Except Config.LoadError Config :=
  if a.config != "" then Config.load fs a.config
  else do
    let start := if a.document == "" then "." else Path.parent a.document
    return (← Config.nearest fs start).getD {}

/-- The paths that a command reads: the places where its configuration may be, and the document. -/
def sources (fs : Files) (a : Arguments) : List String :=
  let start := if a.document == "" then "." else Path.parent a.document
  let configs := if a.config != "" then [Path.join a.config Config.fileName]
    else (fs.placeOf start).ancestors.map fun d => Path.join d.text Config.fileName
  configs ++ (if a.document == "" then [] else [a.document])

/-- Applies the options to a configuration. -/
def adjusted (fs : Files) (a : Arguments) (c : Config) : Config :=
  let c := match a.verbosity with
    | some n => { c with verbosity := n }
    | none => c
  let c := if a.tracing then { c with tracing := true } else c
  let c := if a.journal != "" then { c with journal := fs.absolute a.journal } else c
  let c := if a.entry != "" then
      { c with entryTypes := some ((a.entry.toList.splitOn ',').map String.ofList) }
    else c
  if 0 < a.depth then { c with maxDepth := a.depth } else c

/-- Opens the log file of a configuration, if it has one and logs anything. -/
def openLog (fs : Files) (c : Config) : Except FileError Files :=
  if c.logPath == "" || c.verbosity ≤ Config.leastVerbosity then .ok fs else fs.append c.logPath

/-! ### Running documents -/

/-- The program in a file. -/
def loadProgram (fs : Files) (c : Config) (path : String) : Except CommandError Document := do
  let root ← (Node.load fs path).mapError .document
  (root.parse (c.entryTypes.getD [])).mapError (.program path)

/-- The modules of a configuration and the one that prints. -/
def modulesOf (c : Config) : Except CommandError (List (String × Table Action)) := do
  let modules ← (Blocks.select (c.modules.getD [])).mapError .modules
  return modules ++ [("console", Blocks.consoleTable)]

/-- A machine for a document, if every opcode of the document routes somewhere. -/
def machineFor {σ : Type} (o : Occasion) (c : Config) (document : Document)
    (observer : Observer σ) (memory : σ) : Except CommandError (Machine σ) := do
  let setup : Setup σ := ⟨observer, limitOf c.maxDepth, o.budget⟩
  let m := Machine.create document setup (← modulesOf c) memory
  match m.check with
  | (.value [], m) => .ok m
  | (.value errors, _) => .error (.routing errors)
  | (.fault f, _) => .error (.fault f)
  | (.unfinished, _) => .error .unfinished

/-- The error of an outcome. -/
def errorOf? {β : Type} : Outcome β → Option CommandError
  | .value _ => none
  | .fault f => some (.fault f)
  | .unfinished => some .unfinished

/-- What a finished run prints: its events, a note of the journal, and the heap if it succeeded. -/
def printed {σ : Type} (m : Machine σ) (note : String) (failed : Bool) : String :=
  let s := m.state
  String.join (s.events.toList.map Lines.event) ++ note ++
    (if failed then "" else Lines.bindings (s.heap.read s.store))

/-- What a command printed, the error it ended with, and the files it left. -/
abbrev Done := String × Option CommandError × Files

/-- Runs a document without recording. -/
def runPlain (o : Occasion) (fs : Files) (c : Config) (document : Document) : Done :=
  match machineFor o c document Observer.silent () with
  | .error e => ("", some e, fs)
  | .ok m =>
    let (outcome, m) := m.run
    let error := errorOf? outcome
    (printed m "" error.isSome, error, fs)

/-- Runs a document and records the run under its path. -/
def runRecorded (o : Occasion) (fs : Files) (c : Config) (path : String) (document : Document) :
    Done :=
  match machineFor o c document (Recorder.observer true) (⟨o.runId, 0, none⟩, {}) with
  | .error e => ("", some e, fs)
  | .ok m =>
    -- the opcodes were checked, so a document with unknown ones leaves no run behind
    match fs.openJournal c.journalPath with
    | .error e => ("", some (.unopened e), fs)
    | .ok (j, fs) =>
      let recorder := m.state.memory.1
      let memory := (recorder, j.begin recorder.run path o.now)
      let (outcome, m) := { m with state := { m.state with memory := memory } }.run
      let error := errorOf? outcome
      let (recorder, j) := m.state.memory
      let j := recorder.finish ((error.map CommandError.message).getD "") o.now j
      let note :=
        "trace: run " ++ recorder.run ++ " (" ++ toString m.state.steps ++ " steps)\n"
      (printed m note error.isSome, error, fs.keepJournal c.journalPath j)

/-- Runs the document at a path. -/
def runDocument (o : Occasion) (fs : Files) (c : Config) (path : String) : Done :=
  match loadProgram fs c path with
  | .error e => ("", some e, fs)
  | .ok document =>
    if c.tracing then runRecorded o fs c path document else runPlain o fs c document

/-! ### Printing -/

/-- Lists the recorded runs. -/
def printRuns (o : Occasion) (fs : Files) (path : String) : Done :=
  match fs.openJournal path with
  | .error e => ("", some (.unopened e), fs)
  | .ok (j, fs) => (Lines.runs o.moment j, none, fs)

/-- Prints the steps of a recorded run. -/
def printSteps (fs : Files) (path id : String) : Done :=
  match fs.openJournal path with
  | .error e => ("", some (.unopened e), fs)
  | .ok (j, fs) =>
    match j.steps id with
    | .error e => ("", some (.journal e), fs)
    | .ok steps => (Lines.steps steps, none, fs)

/-- Prints a document as YAML. -/
def printYaml (fs : Files) (path : String) : Done :=
  match Node.load fs path with
  | .error e => ("", some (.document e), fs)
  | .ok root => (root.toYaml, none, fs)

/-! ### Commands -/

/-- Does what the arguments ask for; nothing if they ask for nothing. -/
def perform (o : Occasion) (fs : Files) (c : Config) (a : Arguments) : Option Done :=
  if a.listRuns then some (printRuns o fs c.journalPath)
  else if a.stepsOf != "" then some (printSteps fs c.journalPath a.stepsOf)
  else if a.document == "" then none
  else if a.asYaml then some (printYaml fs a.document)
  else some (runDocument o fs c a.document)

/-- The configuration of a command with the options applied and its log file opened. -/
def prepare (fs : Files) (a : Arguments) : Except CommandError (Config × Files) := do
  let c := adjusted fs a (← (configured fs a).mapError .config)
  match c.violation? with
  | some v => .error (.invalid v)
  | none => return (c, ← (openLog fs c).mapError .log)

/-- The report of an error. -/
def failed (output : String) (e : CommandError) : Report := ⟨e.exitCode, output, e.report⟩

/-- Carries out a command. -/
def run (o : Occasion) (fs : Files) (args : List String) : Report × Files :=
  match Arguments.parse args with
  | .error .help => (⟨0, "", Arguments.usage⟩, fs)
  | .error e => (⟨2, "", e.message ++ Arguments.usage⟩, fs)
  | .ok a =>
    match prepare fs a with
    | .error e => (failed "" e, fs)
    | .ok (c, fs) =>
      match perform o fs c a with
      | none => (⟨2, "", Arguments.usage⟩, fs)
      | some (output, some e, fs) => (failed output e, fs)
      | some (output, none, fs) => (⟨0, output, ""⟩, fs)

end Command

end Blockwork
