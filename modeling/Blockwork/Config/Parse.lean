import Blockwork.Config.Basic
import Blockwork.Toml.Table

/-!
# Configurations as TOML

The settings stand in three tables. Their names are matched without regard to case. A setting has
to have a value of its type; after that, the first key that is no setting is an error, and last the
configuration has to be valid.
-/

namespace Blockwork

/-- Why bytes are no configuration. -/
inductive ConfigError where
  /-- They are no document. -/
  | malformed (f : Toml.Fault)
  /-- A setting has a value of another type. -/
  | mismatched (key : Toml.Key)
  | unknownKey (key : Toml.Key)
  | invalid (v : Violation)
deriving DecidableEq, Inhabited

/-- The message of a configuration error. -/
def ConfigError.message : ConfigError → String
  | malformed f => "parse error: toml: " ++ f.message
  | mismatched key => "parse error: toml: incompatible types for " ++ Toml.keyText key
  | unknownKey key => "unknown key " ++ Text.quote (Toml.keyText key)
  | invalid v => "invalid config: " ++ v.message

namespace Config

/-! ### Settings -/

/-- What can be set. -/
inductive Setting where
  | maxDepth
  | entryTypes
  | modules
  | verbosity
  | logFile
  | tracing
  | journal
deriving DecidableEq, Inhabited

/-- The tables with the names of their settings. -/
def sections : List (String × List (String × Setting)) :=
  [("engine", [("max_depth", .maxDepth), ("entry_types", .entryTypes), ("modules", .modules)]),
   ("log", [("verbosity", .verbosity), ("file", .logFile)]),
   ("trace", [("enabled", .tracing), ("db", .journal)])]

/-- What a name stands for in a list, without regard to case. -/
def named? {α : Type} (list : List (String × α)) (name : String) : Option α :=
  (list.find? fun e => Text.sameFold e.1 name).map (·.2)

/-- A key that is a table of settings or a setting. -/
def isKnown : Toml.Key → Bool
  | [table] => (named? sections table).isSome
  | [table, name] => ((named? sections table).bind (named? · name)).isSome
  | _ => false

/-- The texts of an array of texts. -/
def textsOf? (items : List Toml.Item) : Option (List String) :=
  items.mapM fun
    | .text s => some s
    | _ => none

/-- Gives a setting a value, if it is of the right type. -/
def set? (c : Config) : Setting → Toml.Item → Option Config
  | .maxDepth, .integer n => some { c with maxDepth := n }
  | .entryTypes, .array items => (textsOf? items).map fun ss => { c with entryTypes := some ss }
  | .modules, .array items => (textsOf? items).map fun ss => { c with modules := some ss }
  | .verbosity, .integer n => some { c with verbosity := n }
  | .logFile, .text s => some { c with logFile := s }
  | .tracing, .truth b => some { c with tracing := b }
  | .journal, .text s => some { c with journal := s }
  | _, _ => none

/-- Gives the settings of a table their values. -/
def setAll (table : String) (settings : List (String × Setting)) (c : Config) :
    Toml.Table → Except ConfigError Config
  | [] => .ok c
  | (name, item) :: rest =>
    match named? settings name with
    | none => setAll table settings c rest
    | some setting =>
      match c.set? setting item with
      | none => .error (.mismatched [table, name])
      | some c => setAll table settings c rest

/-- Gives the settings of all tables their values. -/
def setTables (c : Config) : Toml.Table → Except ConfigError Config
  | [] => .ok c
  | (table, item) :: rest =>
    match named? sections table with
    | none => setTables c rest
    | some settings =>
      match item with
      | .table entries => do setTables (← setAll table settings c entries) rest
      | _ => .error (.mismatched [table])

/-! ### Reading -/

/-- The configuration that bytes write. -/
def parse (bs : Text.Bytes) : Except ConfigError Config := do
  let document ← (Toml.read bs).mapError .malformed
  let c ← setTables {} document.root
  match document.keys.find? (!isKnown ·) with
  | some key => .error (.unknownKey key)
  | none =>
    match c.violation? with
    | some v => .error (.invalid v)
    | none => .ok c

end Config

end Blockwork
