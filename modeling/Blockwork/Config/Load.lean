import Blockwork.Config.Parse
import Blockwork.Files.Read
import Blockwork.Files.Upward

/-!
# Finding configurations

A configuration stands in a file of a fixed name. `nearest` looks for it in a directory, then in the
one around it, and so on up to the one that is in itself, and takes the first that is there. That
one counts even if it turns out to be no configuration.
-/

namespace Blockwork

namespace Config

/-- The name of configuration files. -/
def fileName : String := "blockrun.toml"

/-- Why a configuration file cannot be used. -/
inductive LoadError where
  | unreadable (path : String) (e : FileError)
  | rejected (path : String) (e : ConfigError)
deriving DecidableEq, Inhabited

/-- The message of a load error. -/
def LoadError.message : LoadError → String
  | unreadable path e => "cannot read " ++ path ++ ": " ++ e.message
  | rejected path e => path ++ ": " ++ e.message

/-- The configuration of a directory. -/
def load (fs : Files) (directory : String) : Except LoadError Config := do
  let path := Path.join directory fileName
  let content ← (fs.read path).mapError (.unreadable path)
  let c ← (parse content).mapError (.rejected path)
  return { c with directory := fs.absolute directory }

/-- Whether a directory has a configuration file. -/
def isIn (fs : Files) (directory : String) : Bool := fs.has (Path.join directory fileName)

/-- Goes up from a directory to the first that has a configuration file. -/
def climb (fs : Files) (directory : String) : Except LoadError (Option Config) :=
  if isIn fs directory then (load fs directory).map some
  else if Path.parent directory = directory then .ok none
  else climb fs (Path.parent directory)
termination_by Path.height directory
decreasing_by exact Path.height_parent_lt ‹_›

/-- The configuration of the nearest directory that has one, from a directory outwards. -/
def nearest (fs : Files) (start : String) : Except LoadError (Option Config) :=
  climb fs (fs.absolute start)

end Config

end Blockwork
