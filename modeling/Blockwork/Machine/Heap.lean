import Blockwork.Program.Basic
import Blockwork.Value.Basic

/-!
# The heap

The variables of a run in the order of their declaration, each with its value. The names are
fixed when the heap is made; assigning to any other name is refused.
-/

namespace Blockwork

/-- Declared names with their values, each name once. -/
structure Heap where
  bindings : List (String × Value)
deriving DecidableEq, Inhabited

namespace Heap

/-- A heap without variables. -/
def empty : Heap := ⟨[]⟩

/-- The names in the order of their declaration. -/
def names (h : Heap) : List String := h.bindings.map (·.1)

/-- The number of declared names. -/
def size (h : Heap) : Nat := h.bindings.length

/-- The value of a name, if it is declared. -/
def get? (h : Heap) (name : String) : Option Value :=
  (h.bindings.find? (·.1 == name)).map (·.2)

/-- Whether a name is declared. -/
def contains (h : Heap) (name : String) : Bool := h.bindings.any (·.1 == name)

/-- Replaces the value of a name where it is bound. -/
def put (h : Heap) (name : String) (v : Value) : Heap :=
  ⟨h.bindings.map fun b => if b.1 == name then (name, v) else b⟩

/-- Assigns a declared name; `none` for any other. -/
def set? (h : Heap) (name : String) (v : Value) : Option Heap :=
  if h.contains name then some (h.put name v) else none

/-- Declares a name without a value. A name that is declared again loses its value and keeps its
place. -/
def declare (h : Heap) (name : String) : Heap :=
  if h.contains name then h.put name .undefined else ⟨h.bindings ++ [(name, .undefined)]⟩

/-- The heap of declared names, none of them assigned. -/
def ofNames (names : List String) : Heap := names.foldl declare empty

/-- The heap of a document's variables. -/
def ofVariables (vars : List Variable) : Heap := ofNames (vars.map (·.name))

/-- A copy of the bindings in which every list held by a variable is a new list with the same
items. Items that are lists themselves stay shared. -/
def snapshot (h : Heap) (s : Store) : List (String × Value) × Store :=
  h.bindings.foldl (fun (copied, s) (name, v) =>
    match v with
    | .list id =>
      let (copy, s) := s.create (s.items id)
      (copied ++ [(name, .list copy)], s)
    | v => (copied ++ [(name, v)], s)) ([], s)

/-- The bindings read out of the store. -/
def read (h : Heap) (s : Store) : List (String × Datum) :=
  h.bindings.map fun (name, v) => (name, s.read v)

end Heap

end Blockwork
