import Blockwork.Blocks.Action
import Blockwork.Files.Path

/-!
# Configurations

What can be set for running documents, with the values that hold when nothing is set. A
configuration is valid when blocks may nest at least one level, only standard modules are asked
for, and the verbosity is between minus four and four. Its paths are relative to the directory that
it was found in.
-/

namespace Blockwork

/-- A configuration. -/
structure Config where
  /-- How deep blocks may nest. -/
  maxDepth : Int := 1000
  /-- The opcodes that a script may start with; none at all allows every one. -/
  entryTypes : Option (List String) := some ["event_whenflagclicked"]
  /-- The standard modules to use. -/
  modules : Option (List String) := some (Blocks.standard.map (·.1))
  verbosity : Int := 1
  /-- Where log lines go, empty for the standard error stream. -/
  logFile : String := ""
  /-- Whether runs are recorded. -/
  tracing : Bool := false
  /-- Where runs are recorded. -/
  journal : String := ".blockrun/trace.db"
  /-- What relative paths start from. -/
  directory : String := "."
deriving DecidableEq, Inhabited

/-- What is wrong with a configuration. -/
inductive Violation where
  | depth (n : Int)
  | noEntryTypes
  | noModules
  | unknownModule (name : String)
  | verbosity (n : Int)
deriving DecidableEq, Inhabited

/-- The message of a violation. -/
def Violation.message : Violation → String
  | depth n => "engine.max_depth: invalid value " ++ toString n ++ " (out of bound >0)"
  | noEntryTypes => "engine.entry_types: incomplete value"
  | noModules => "engine.modules: incomplete value"
  | unknownModule name => "engine.modules: " ++ Text.quote name ++ " is no standard module"
  | verbosity n =>
    "log.verbosity: invalid value " ++ toString n ++ " (out of bound " ++
      (if n < 0 then ">=-4)" else "<=4)")

namespace Config

/-- The lowest verbosity; nothing is logged at it. -/
def leastVerbosity : Int := -4

/-- The highest verbosity. -/
def greatestVerbosity : Int := 4

/-- The first violation of a configuration. -/
def violation? (c : Config) : Option Violation :=
  if c.maxDepth ≤ 0 then some (.depth c.maxDepth)
  else match c.entryTypes, c.modules with
    | none, _ => some .noEntryTypes
    | _, none => some .noModules
    | some _, some names =>
      match names.find? (!(Blocks.standard.map (·.1)).contains ·) with
      | some name => some (.unknownModule name)
      | none =>
        if c.verbosity < leastVerbosity ∨ greatestVerbosity < c.verbosity then
          some (.verbosity c.verbosity)
        else none

/-- A path of the configuration from where the program runs. -/
def pathOf (c : Config) (path : String) : String :=
  if path == "" || Path.isAbsolute path then path else Path.join c.directory path

/-- Where runs are recorded, from where the program runs. -/
def journalPath (c : Config) : String := c.pathOf c.journal

/-- Where log lines go, from where the program runs. -/
def logPath (c : Config) : String := c.pathOf c.logFile

end Config

end Blockwork
