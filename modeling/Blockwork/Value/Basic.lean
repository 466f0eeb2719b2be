import Blockwork.Number.Binary64

/-!
# Values

What variables hold and blocks return: nothing yet, a number, a text, a truth value or a list.
Lists are shared objects. A value refers to its list by a `ListId`, the items live in the `Store`,
and two variables with the same `ListId` see each other's writes.

A `Datum` is a value read out of the store down to its last item. It is what is shown, written to
a journal or compared from outside, where sharing no longer matters. A list may come to lie inside
itself. The program that reads such a list out does not return; `Store.read` is a function and
answers, but what it answers there stands for nothing that the program does.
-/

namespace Blockwork

/-- The five kinds of values. -/
inductive Kind where
  | undefined
  | number
  | text
  | truth
  | list
deriving DecidableEq, Inhabited

namespace Kind

/-- The name of a kind in messages. -/
def name : Kind → String
  | undefined => "undefined"
  | number => "number"
  | text => "string"
  | truth => "boolean"
  | list => "list"

end Kind

/-- The identity of a list. -/
structure ListId where
  index : Nat
deriving DecidableEq, Inhabited

/-- A value as it is held by a variable or by a list. -/
inductive Value where
  /-- The value of a variable that was never assigned. -/
  | undefined
  | number (n : Binary64)
  | text (s : String)
  | truth (b : Bool)
  /-- A list, by its identity. -/
  | list (id : ListId)
  /-- A value of the list kind that refers to no list. -/
  | noList
deriving DecidableEq, Inhabited

namespace Value

/-- The kind of a value. -/
def kind : Value → Kind
  | undefined => .undefined
  | number _ => .number
  | text _ => .text
  | truth _ => .truth
  | list _ => .list
  | noList => .list

/-- The value of a variable that was never assigned. -/
def isUndefined : Value → Bool
  | undefined => true
  | _ => false

end Value

/-! ### The store of lists -/

/-- The items of every list, by identity. -/
structure Store where
  lists : Array (Array Value)
deriving DecidableEq, Inhabited

namespace Store

/-- A store without lists. -/
def empty : Store := ⟨#[]⟩

/-- The items of a list. -/
def items (s : Store) (id : ListId) : Array Value := s.lists.getD id.index #[]

/-- Replaces the items of a list. -/
def write (s : Store) (id : ListId) (xs : Array Value) : Store :=
  ⟨s.lists.setIfInBounds id.index xs⟩

/-- Applies a change to the items of a list. -/
def update (s : Store) (id : ListId) (f : Array Value → Array Value) : Store :=
  ⟨s.lists.modify id.index f⟩

/-- A new list with the given items. -/
def create (s : Store) (xs : Array Value) : ListId × Store :=
  (⟨s.lists.size⟩, ⟨s.lists.push xs⟩)

end Store

/-! ### Detached values -/

/-- A value read out of the store, with the items of its lists in place. -/
inductive Datum where
  | undefined
  | number (n : Binary64)
  | text (s : String)
  | truth (b : Bool)
  | list (items : List Datum)
  /-- A value of the list kind that refers to no list. -/
  | noList
deriving Inhabited

namespace Datum

/-- The kind of a detached value. -/
def kind : Datum → Kind
  | undefined => .undefined
  | number _ => .number
  | text _ => .text
  | truth _ => .truth
  | list _ => .list
  | noList => .list

end Datum

namespace Store

/-- Reads a value out that lies inside the lists of a path, the innermost first. No list is twice
on a path, so a depth of as many lists as there are is enough for every value. A list that lies
inside itself has to be cut off somewhere, and is read as empty where it repeats; the program has
no such cut and would go on reading. -/
def readInside (s : Store) : (depth : Nat) → (path : List ListId) → Value → Datum
  | _, _, .undefined => .undefined
  | _, _, .number n => .number n
  | _, _, .text t => .text t
  | _, _, .truth b => .truth b
  | _, _, .noList => .noList
  | 0, _, .list _ => .list []
  | depth + 1, path, .list id =>
    if path.contains id then .list []
    else .list ((s.items id).toList.map (s.readInside depth (id :: path)))

/-- Reads a value out in full, if no list that is met in it lies inside itself. -/
def read (s : Store) (v : Value) : Datum := s.readInside s.lists.size [] v

mutual

/-- Puts a detached value into the store; each of its lists becomes a new one. -/
def load (s : Store) : Datum → Value × Store
  | .undefined => (.undefined, s)
  | .number n => (.number n, s)
  | .text t => (.text t, s)
  | .truth b => (.truth b, s)
  | .noList => (.noList, s)
  | .list ds =>
    let (vs, s) := s.loadAll ds
    let (id, s) := s.create vs.toArray
    (.list id, s)

/-- Puts several detached values into the store, from the first to the last. -/
def loadAll (s : Store) : List Datum → List Value × Store
  | [] => ([], s)
  | d :: ds =>
    let (v, s) := s.load d
    let (vs, s) := s.loadAll ds
    (v :: vs, s)

end

end Store

end Blockwork
