import Blockwork.Toml.Document

/-!
# Tables

The statements of a document define keys in a tree of tables. A key may be defined once. A table
that was only mentioned, as part of a longer key, may be defined later. A header `[[key]]` adds a
table to an array, and the keys after it belong to that table.

A `Draft` is a tree under construction. It remembers which tables were only mentioned and which
keys were written as arrays, because these may be met again; and it keeps all keys that were
written, in their order.
-/

namespace Blockwork.Toml

/-- A value in a table. -/
inductive Item where
  | text (s : String)
  | integer (n : Int)
  | truth (b : Bool)
  | real
  | moment
  | array (items : List Item)
  | table (entries : List (String × Item))
  /-- An array of tables that headers add to. -/
  | tables (elements : List (List (String × Item)))
deriving Inhabited

/-- Names with their values, each name once. -/
abbrev Table := List (String × Item)

namespace Table

/-- The value of a name. -/
def get? (t : Table) (name : String) : Option Item := (t.find? (·.1 == name)).map (·.2)

/-- Gives a name a value; a new name goes to the end. -/
def put (t : Table) (name : String) (value : Item) : Table :=
  if t.any (·.1 == name) then t.map fun e => if e.1 == name then (name, value) else e
  else t ++ [(name, value)]

/-- Applies a change to the table at a key. An array of tables stands for its last table. -/
def changeAt? (change : Table → Table) : Key → Table → Option Table
  | [], t => some (change t)
  | name :: names, t =>
    match t.get? name with
    | some (.table inner) => (changeAt? change names inner).map fun x => t.put name (.table x)
    | some (.tables elements) => do
      let last ← elements.getLast?
      let x ← changeAt? change names last
      return t.put name (.tables (elements.dropLast ++ [x]))
    | _ => none

/-- The table at a key. An array of tables stands for its last table. -/
def at? : Key → Table → Option Table
  | [], t => some t
  | name :: names, t =>
    match t.get? name with
    | some (.table inner) => at? names inner
    | some (.tables elements) => elements.getLast?.bind (at? names)
    | _ => none

end Table

/-- A tree of tables under construction. -/
structure Draft where
  root : Table := []
  /-- The tables that were only mentioned. -/
  mentioned : List Key := []
  /-- The keys that were written as arrays. -/
  arrays : List Key := []
  /-- The keys that were written, the last one first. -/
  written : List Key := []

namespace Draft

/-- Notes that a table was mentioned. -/
def mention (d : Draft) (key : Key) : Draft :=
  if d.mentioned.contains key then d else { d with mentioned := key :: d.mentioned }

/-- Notes that a key was written. -/
def write (d : Draft) (key : Key) : Draft := { d with written := key :: d.written }

/-- Notes whether a key was written as an array. The empty name stands for the table that it is
in. -/
def noteArray (d : Draft) (context : Key) (name : String) (isArray : Bool) : Draft :=
  let key := if name != "" then context ++ [name] else if context.isEmpty then [""] else context
  let others := d.arrays.filter (· != key)
  { d with arrays := if isArray then key :: others else others }

/-- Puts a value into the table at a key. -/
def putAt (d : Draft) (context : Key) (name : String) (value : Item) : Except Fault Draft :=
  match d.root.changeAt? (·.put name value) context with
  | some root => .ok { d with root := root }
  | none => .error (.defined context)

/-- Defines a name in the table at a key. A table that was only mentioned stays as it is, and so
does one that the items of an array made. -/
def define (d : Draft) (context : Key) (name : String) (value : Item) : Except Fault Draft :=
  let key := context ++ [name]
  match d.root.at? context with
  | none => .error (.defined context)
  | some t =>
    if (t.get? name).isNone then d.putAt context name value
    else if d.mentioned.contains key then
      let d := { d with mentioned := d.mentioned.filter (· != key) }
      if d.arrays.contains key then d.putAt context name value else .ok d
    else .error (.defined key)

/-- Mentions the tables on the way from a table to a key, the key itself excluded. -/
def reach (d : Draft) (context : Key) : Key → Except Fault Draft
  | [] | [_] => .ok d
  | name :: rest => do
    let d ← match (d.root.at? context).map (Table.get? · name) with
      | none => .error (.defined context)
      | some none => (d.mention (context ++ [name])).putAt context name (.table [])
      | some (some _) => .ok d
    d.reach (context ++ [name]) rest

/-- Adds a table to the array at a key. -/
def extend (d : Draft) (context : Key) (name : String) : Except Fault Draft :=
  match (d.root.at? context).map (Table.get? · name) with
  | some none => d.putAt context name (.tables [[]])
  | some (some (.tables elements)) => d.putAt context name (.tables (elements ++ [[]]))
  | _ => .error (.defined (context ++ [name]))

/-- Opens the table at a key, as a further table of an array or as a table of its own. -/
def enter (d : Draft) (key : Key) (asElement : Bool) : Except Fault Draft :=
  match key.getLast? with
  | none => .ok d
  | some name => do
    let d ← d.reach [] key
    if asElement then d.extend key.dropLast name else d.define key.dropLast name (.table [])

/-- Opens the tables that a key of several names goes through, from a table on. -/
def enterNames (d : Draft) (context : Key) : Key → Except Fault Draft
  | [] | [_] => .ok d
  | name :: rest => do
    let here := context ++ [name]
    let d ← (d.mention here).enter here false
    d.enterNames here rest

/-! ### Values -/

mutual

/-- The value of a literal that is written for a name. Inline tables go into the tree as they are
read. -/
def evaluate (context : Key) (name : String) (inArray : Bool) :
    Literal → Draft → Except Fault (Item × Draft)
  | .text s, d => .ok (.text s, d)
  | .integer n, d => .ok (.integer n, d)
  | .truth b, d => .ok (.truth b, d)
  | .real, d => .ok (.real, d)
  | .moment, d => .ok (.moment, d)
  | .array literals, d => do
    let (items, d) ← evaluateItems context name literals (d.noteArray context name true)
    return (.array items, d)
  | .inline entries, d => do
    let key := context ++ [name]
    let d ← (d.mention key).enter key inArray
    let d ← assignAll key entries d
    return (.table ((d.root.at? key).getD []), d)

/-- The values of the items of an array. -/
def evaluateItems (context : Key) (name : String) :
    List Literal → Draft → Except Fault (List Item × Draft)
  | [], d => .ok ([], d)
  | literal :: literals, d => do
    let (item, d) ← evaluate context name true literal d
    let (items, d) ← evaluateItems context name literals d
    return (item :: items, d)

/-- Assigns the entries of an inline table. -/
def assignAll (context : Key) : List (Key × Literal) → Draft → Except Fault Draft
  | [], d => .ok d
  | (key, literal) :: entries, d => do
    let table := context ++ key.dropLast
    let name := key.getLast?.getD ""
    let d ← d.enterNames context key
    let (value, d) ← evaluate table name false literal (d.write (table ++ [name]))
    let d ← d.define table name value
    let isArray := match literal with
      | .array _ => true
      | _ => false
    assignAll context entries (d.noteArray table name isArray)

end

/-- Carries out statements, with entries going into the table at a key. -/
def carryOut (context : Key) : List Statement → Draft → Except Fault Draft
  | [], d => .ok d
  | .table key :: rest, d => do
    let d ← d.enter key false
    carryOut key rest ((d.noteArray key "" false).write key)
  | .element key :: rest, d => do
    let d ← d.enter key true
    carryOut key rest ((d.noteArray key "" false).write key)
  | .entry key literal :: rest, d => do
    let d ← assignAll context [(key, literal)] d
    carryOut context rest d

end Draft

/-- A document: its table and the keys that were written, in order. -/
structure Document where
  root : Table
  keys : List Key

/-- Reads a document. -/
def read (bs : Text.Bytes) : Except Fault Document := do
  let d ← Draft.carryOut [] (← statements bs) {}
  return ⟨d.root, d.written.reverse⟩

end Blockwork.Toml
