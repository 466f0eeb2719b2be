import Blockwork.Text.Quoted

/-!
# Modules and routing

A module is a named table of functions. An opcode is routed to the module with the longest
registered name that, followed by an underscore, begins it; what is left is the function. There is
no falling back to a shorter name: a module that claims an opcode and lacks the function is an
error. Routes that were found are kept until the set of modules changes.

The registry is generic in what a function is.
-/

namespace Blockwork

/-- The functions of a module by name. A name may be listed without a function. -/
abbrev Table (α : Type) := List (String × Option α)

namespace Table

variable {α : Type}

/-- Sets a function; a name that is there takes the new entry. -/
def insert (t : Table α) (name : String) (entry : Option α) : Table α :=
  if t.any (·.1 == name) then t.map fun e => if e.1 == name then (name, entry) else e
  else t ++ [(name, entry)]

/-- The function of a name, if it is listed with one. -/
def find? (t : Table α) (name : String) : Option α :=
  (List.find? (fun e : String × Option α => e.1 == name) t).bind (·.2)

end Table

/-- Why an opcode has no route. -/
inductive RoutingError where
  /-- No registered module claims the opcode. -/
  | unknownModule (opcode module : String)
  /-- The module that claims the opcode has no such function. -/
  | unknownOpcode (opcode module function : String)
deriving DecidableEq, Inhabited

namespace RoutingError

/-- The message of a routing error. -/
def message : RoutingError → String
  | unknownModule opcode module =>
    "no module " ++ Text.quote module ++ " registered for opcode " ++ Text.quote opcode
  | unknownOpcode opcode module function =>
    "module " ++ Text.quote module ++ " has no function " ++ Text.quote function ++
      " (opcode " ++ Text.quote opcode ++ ")"

end RoutingError

/-- An opcode split into its module and its function. -/
structure Route (α : Type) where
  opcode : String
  module : String
  function : String
  handler : α

/-- The registered modules, the order in which their names are tried, and the routes found. -/
structure Registry (α : Type) where
  modules : List (String × Table α)
  names : List String
  routes : List (String × Route α)

namespace Registry

variable {α : Type}

/-- A registry without modules. -/
def empty : Registry α := ⟨[], [], []⟩

/-- The order in which names are tried: longer names first, names of one length by their bytes. -/
def precedes (a b : String) : Bool :=
  if a.utf8ByteSize = b.utf8ByteSize then !decide (b < a)
  else decide (b.utf8ByteSize < a.utf8ByteSize)

/-- The registry of some modules: the names in order, and no routes yet. -/
def ofModules (modules : List (String × Table α)) : Registry α :=
  ⟨modules, (modules.map (·.1)).mergeSort precedes, []⟩

/-- Adds a module or replaces the one of that name. -/
def register (r : Registry α) (name : String) (table : Table α) : Registry α :=
  ofModules (if r.modules.any (·.1 == name) then
      r.modules.map fun m => if m.1 == name then (name, table) else m
    else r.modules ++ [(name, table)])

/-- Whether a module of that name is registered. -/
def contains (r : Registry α) (name : String) : Bool := r.modules.any (·.1 == name)

/-- Removes a module; a name that is not registered changes nothing. -/
def unregister (r : Registry α) (name : String) : Registry α :=
  if r.contains name then ofModules (r.modules.filter (·.1 != name)) else r

/-- The table of a module. -/
def module? (r : Registry α) (name : String) : Option (Table α) :=
  (r.modules.find? (·.1 == name)).map (·.2)

/-- What is left of a list after another one at its beginning. -/
def dropLead? : List Char → List Char → Option (List Char)
  | [], cs => some cs
  | _ :: _, [] => none
  | l :: ls, c :: cs => if l = c then dropLead? ls cs else none

/-- The function that an opcode asks of a module: what follows the name and an underscore. -/
def functionOf? (name opcode : String) : Option String :=
  (dropLead? (name.toList ++ ['_']) opcode.toList).map String.ofList

/-- The text before the first underscore, all of it when there is none. -/
def claimedModule (opcode : String) : String :=
  String.ofList (opcode.toList.takeWhile (· != '_'))

/-- Routes an opcode through the names in order. -/
def route (r : Registry α) (opcode : String) : List String → Except RoutingError (Route α)
  | [] => .error (.unknownModule opcode (claimedModule opcode))
  | name :: names =>
    match functionOf? name opcode with
    | none => r.route opcode names
    | some function =>
      match (r.module? name).bind (·.find? function) with
      | some handler => .ok ⟨opcode, name, function, handler⟩
      | none => .error (.unknownOpcode opcode name function)

/-- The route of an opcode, and the registry with that route kept. -/
def resolve (r : Registry α) (opcode : String) :
    Except RoutingError (Route α) × Registry α :=
  match r.routes.find? (·.1 == opcode) with
  | some (_, found) => (.ok found, r)
  | none =>
    match r.route opcode r.names with
    | .ok found => (.ok found, { r with routes := (opcode, found) :: r.routes })
    | .error e => (.error e, r)

end Registry

end Blockwork
