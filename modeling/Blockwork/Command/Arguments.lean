import Blockwork.Number.Integer
import Blockwork.Text.Quoted

/-!
# Arguments

Options come first, each with one or two dashes. The value of an option is joined to it by `=` or
is the next argument; a switch takes a value only by `=`. Options end at the first argument that is
none, or after `--`. An option given twice has its last value.
-/

namespace Blockwork

/-- What the arguments of a command ask for. -/
structure Arguments where
  /-- The directory of the configuration, empty to look for it. -/
  config : String := ""
  /-- The verbosity, if it is given. -/
  verbosity : Option Int := none
  tracing : Bool := false
  /-- Where runs are recorded, empty to leave it to the configuration. -/
  journal : String := ""
  /-- Opcodes that a script may start with, separated by commas; empty to leave them to the
  configuration. -/
  entry : String := ""
  /-- How deep blocks may nest; zero or less to leave it to the configuration. -/
  depth : Int := 0
  asYaml : Bool := false
  listRuns : Bool := false
  /-- The run whose steps are wanted, empty for none. -/
  stepsOf : String := ""
  /-- What is left after the options. -/
  operands : List String := []
deriving DecidableEq, Inhabited

/-- Why arguments are refused. -/
inductive ArgumentError where
  /-- Not refused: the usage is asked for. -/
  | help
  | badForm (arg : String)
  | unknown (name : String)
  | noValue (name : String)
  | badValue (name value : String)
  | badSwitch (name value : String)
deriving DecidableEq, Inhabited

/-- The message of an argument error. -/
def ArgumentError.message : ArgumentError → String
  | help => ""
  | badForm arg => "bad flag syntax: " ++ arg ++ "\n"
  | unknown name => "flag provided but not defined: -" ++ name ++ "\n"
  | noValue name => "flag needs an argument: -" ++ name ++ "\n"
  | badValue name value =>
    "invalid value " ++ Text.quote value ++ " for flag -" ++ name ++ ": parse error\n"
  | badSwitch name value =>
    "invalid boolean value " ++ Text.quote value ++ " for -" ++ name ++ ": parse error\n"

namespace Arguments

/-! ### Options -/

/-- The options. -/
inductive Choice where
  | config
  | verbosity
  | tracing
  | journal
  | entry
  | depth
  | asYaml
  | listRuns
  | stepsOf
deriving DecidableEq, Inhabited

/-- The options by name. -/
def choices : List (String × Choice) :=
  [("config", .config), ("v", .verbosity), ("trace", .tracing), ("trace-db", .journal),
   ("entry", .entry), ("depth", .depth), ("yaml", .asYaml), ("runs", .listRuns),
   ("steps", .stepsOf)]

/-- An option that is on or off. -/
def Choice.isSwitch : Choice → Bool
  | .tracing | .asYaml | .listRuns => true
  | _ => false

/-- The truth value that a text writes. -/
def readTruth? (s : String) : Option Bool :=
  if ["1", "t", "T", "TRUE", "true", "True"].contains s then some true
  else if ["0", "f", "F", "FALSE", "false", "False"].contains s then some false
  else none

/-- Gives an option a value. -/
def set? (a : Arguments) (value : String) : Choice → Option Arguments
  | .config => some { a with config := value }
  | .verbosity => (Numeral.readInteger? value).map fun n => { a with verbosity := some n }
  | .tracing => (readTruth? value).map fun b => { a with tracing := b }
  | .journal => some { a with journal := value }
  | .entry => some { a with entry := value }
  | .depth => (Numeral.readInteger? value).map fun n => { a with depth := n }
  | .asYaml => (readTruth? value).map fun b => { a with asYaml := b }
  | .listRuns => (readTruth? value).map fun b => { a with listRuns := b }
  | .stepsOf => some { a with stepsOf := value }

/-! ### Reading -/

/-- What an argument is. -/
inductive Shape where
  | operand
  /-- The end of the options. -/
  | stop
  | option (name : String) (value : Option String)
  | bad
deriving DecidableEq, Inhabited

/-- The name of an option, and its value if one is joined to it. -/
def splitValue (cs : List Char) : Shape :=
  match cs with
  | [] => .bad
  | c :: rest =>
    if c == '-' || c == '=' then .bad
    else
      let name := c :: rest.takeWhile (· != '=')
      match rest.dropWhile (· != '=') with
      | _ :: value => .option (String.ofList name) (some (String.ofList value))
      | [] => .option (String.ofList name) none

/-- What an argument is. -/
def shapeOf (arg : String) : Shape :=
  match arg.toList with
  | ['-', '-'] => .stop
  | '-' :: '-' :: cs => splitValue cs
  | '-' :: c :: cs => splitValue (c :: cs)
  | _ => .operand

/-- Gives an option a value, or refuses it. -/
def assign (a : Arguments) (name value : String) (choice : Choice) :
    Except ArgumentError Arguments :=
  match a.set? value choice with
  | some a => .ok a
  | none => .error (if choice.isSwitch then .badSwitch name value else .badValue name value)

/-- The option of a name. -/
def choiceOf (name : String) : Except ArgumentError Choice :=
  match choices.find? (·.1 == name) with
  | some (_, choice) => .ok choice
  | none => .error (if name == "help" || name == "h" then .help else .unknown name)

/-- Reads arguments on top of those that were read before. -/
def parseFrom (a : Arguments) : List String → Except ArgumentError Arguments
  | [] => .ok a
  | arg :: rest =>
    match shapeOf arg with
    | .operand => .ok { a with operands := arg :: rest }
    | .stop => .ok { a with operands := rest }
    | .bad => .error (.badForm arg)
    | .option name joined => do
      let choice ← choiceOf name
      match joined, rest with
      | some value, rest => parseFrom (← a.assign name value choice) rest
      | none, rest =>
        -- a switch never takes the next argument as its value
        if choice.isSwitch then parseFrom (← a.assign name "true" choice) rest
        else match rest with
          | value :: rest => parseFrom (← a.assign name value choice) rest
          | [] => .error (.noValue name)

/-- Reads arguments. -/
def parse (args : List String) : Except ArgumentError Arguments := parseFrom {} args

/-- The document to work on, empty for none. -/
def document (a : Arguments) : String := a.operands.head?.getD ""

/-! ### Usage -/

/-- What the options are for, in the order of their names. -/
def descriptions : List (String × String) :=
  [("config string",
      "Directory holding blockrun.toml (default: search upward from the document)"),
   ("depth int", "Maximum block nesting depth (default from config)"),
   ("entry string", "Comma-separated entry block types (default from config)"),
   ("runs", "List recorded runs and exit"),
   ("steps string", "Print the steps of a recorded run and exit"),
   ("trace", "Record the run in the trace database"),
   ("trace-db string", "Trace database path (default from config)"),
   ("v int", "Log verbosity, overrides the config file when given (-4..4)"),
   ("yaml", "Print the document as YAML instead of running it")]

/-- How the program is used. -/
def usage : String :=
  "Usage: blockrun [options] <document.xml|document.yaml>\n\n" ++
  "Parses a block program and runs its entry script.\n\n" ++
  "Options:\n" ++
  String.join (descriptions.map fun (name, text) => "  -" ++ name ++ "\n    \t" ++ text ++ "\n") ++
  "\nExamples:\n" ++
  "  blockrun counter.xml              # Run, print the final heap\n" ++
  "  blockrun -trace counter.xml       # Run and record every step\n" ++
  "  blockrun -yaml counter.xml        # Convert to the YAML form\n" ++
  "  blockrun -runs                    # List recorded runs\n" ++
  "  blockrun -steps <run-id>          # Show one recorded run\n"

end Arguments

end Blockwork
