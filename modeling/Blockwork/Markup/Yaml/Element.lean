import Blockwork.Markup.Node
import Blockwork.Markup.Yaml.Tree
import Blockwork.Text.Base64

/-!
# Elements in YAML

An element is a mapping with the keys `tag`, `attrs`, `text` and `children`; other keys are not
looked at. Where a text is expected every scalar will do: it gives the text as it is written. What
is null leaves its place empty, a null child is an absent node, and a null attribute is empty.

A mapping may draw on other mappings through a merge key: their entries count where the mapping has
none of its own. A name counts as set when its key is a text, so that an attribute whose name is
written like a number does give way to one that is merged in.

Where a part has the wrong shape the reading goes on, and all is refused in the end. The other
faults end the reading on the spot.
-/

namespace Blockwork.Yaml

/-- What reading a document counts: the nodes that were visited, those of them that were reached
through references, and whether a part had the wrong shape. -/
structure Tally where
  visited : Nat
  shared : Nat
  mistyped : Bool

/-- A step of reading a document. -/
abbrev Reading (α : Type) := StateT Tally (Except Fault) α

/-- The slots of the document, and the references that are being followed. -/
structure Place where
  slots : Array Tree
  busy : List Nat

namespace Place

/-- The node of a slot. -/
def slot (p : Place) (n : Nat) : Tree := p.slots[n]?.getD .missing

end Place

namespace Tally

/-- How many of a hundred visits may come from references: ninety-nine in a document of up to
400000 visits, ten from 4000000 visits on, and in between a share that falls evenly. -/
def isExcessive (t : Tally) : Bool :=
  100 < t.shared && 1000 < t.visited &&
    (if t.visited ≤ 400000 then 99 * t.visited < 100 * t.shared
    else if 4000000 ≤ t.visited then 10 * t.visited < 100 * t.shared
    else (99 * 3600000 - 89 * (t.visited - 400000)) * t.visited < 100 * 3600000 * t.shared)

end Tally

namespace Reading

/-- Notes that a part has the wrong shape. -/
def mistype : Reading Unit := modify fun t => { t with mistyped := true }

/-- Counts a visit. -/
def visit (p : Place) : Reading Unit := do
  modify fun t => { t with
    visited := t.visited + 1
    shared := if p.busy.isEmpty then t.shared else t.shared + 1 }
  if (← get).isExcessive then throw .excessiveReferences

/-- The node to read: a reference is followed to its slot. -/
def settle (p : Place) (t : Tree) : Reading (Place × Tree) := do
  visit p
  match t with
  | .reference name slot id =>
    if p.busy.contains id then throw (.cyclicAnchor name)
    let p := { p with busy := id :: p.busy }
    visit p
    return (p, p.slot slot)
  | t => return (p, t)

/-! ### Texts -/

/-- The tags whose texts have to read as they demand. -/
def isDemanding (tag : String) : Bool :=
  ["!!bool", "!!int", "!!float", "!!null", "!!timestamp"].contains tag

/-- What a scalar gives: a text, or nothing when it is null. The flag says whether its value is a
text too. -/
def scalarText (tag text : String) : Reading (Option String × Bool) := do
  if isDemanding tag then
    let kind := kindOf (tag == "!!timestamp") text
    if kind.tag == tag || (tag == "!!float" && kind = .integer false) then
      return (if kind = .nothing then none else some text, false)
    else throw (.mistagged kind.tag text tag)
  else if tag == "!!binary" then
    match Text.decodeBase64? text with
    | some bs => return (some (String.ofList (Text.decodeLossy bs)), true)
    | none => throw .notBase64
  else return (some text, true)

/-- The text of a node, if it is a scalar and not null. -/
def textOf (p : Place) (t : Tree) : Reading (Option String) := do
  match ← settle p t with
  | (_, .scalar tag text) => return (← scalarText tag text).1
  | _ => do
    mistype
    return none

/-- The text of a node whose value is a text. -/
def ownText (p : Place) (t : Tree) : Reading (Option String) := do
  match ← settle p t with
  | (_, .scalar tag text) => do
    let (s, isText) ← scalarText tag text
    return s.filter fun _ => isText
  | _ => return none

/-- A scalar where a collection is expected may only be null; says whether it is. -/
def requireNull (tag text : String) : Reading Bool := do
  match ← scalarText tag text with
  | (none, _) => return true
  | (some _, _) => do
    mistype
    return false

/-- A node that is null, itself or where it leads to. -/
def isNull (p : Place) : Tree → Bool
  | .scalar tag _ => tag == "!!null"
  | .sequence tag _ => tag == "!!null"
  | .mapping tag _ => tag == "!!null"
  | .reference _ n _ =>
    match p.slot n with
    | .scalar tag _ => tag == "!!null"
    | .sequence tag _ => tag == "!!null"
    | .mapping tag _ => tag == "!!null"
    | .reference .. => false

/-! ### Mappings -/

/-- Two keys that may not stand in one mapping: both are scalars of one text, both sequences, both
mappings, or both references of one name. -/
def clash : Tree → Tree → Bool
  | .scalar _ a, .scalar _ b => a == b
  | .sequence .., .sequence .. => true
  | .mapping .., .mapping .. => true
  | .reference a _ _, .reference b _ _ => a == b
  | _, _ => false

/-- A key is there twice. -/
def hasClash : List (Tree × Tree) → Bool
  | [] => false
  | (k, _) :: rest => rest.any (fun e => clash k e.1) || hasClash rest

/-- A key that merges its value in. -/
def isMerge : Tree → Bool
  | .scalar tag text => tag == "!!merge" && text == "<<"
  | _ => false

/-- A node that can be merged in. -/
def isMergeable (p : Place) : Tree → Bool
  | .mapping .. => true
  | .reference _ n _ => match p.slot n with
    | .mapping .. => true
    | _ => false
  | _ => false

/-- What becomes of an entry. `fresh` says that nothing was read before the mapping. -/
abbrev Assign (α : Type) := (p : Place) → (fresh : Bool) → String → Tree → α → Reading α

/-- Goes through the entries of a mapping. Names in `taken` are passed over, and names met are
added to it; a name of the class `once` may be met once only. -/
def assignAll {α : Type} (assign : Assign α) (once : String → Bool) (p : Place) :
    List (Tree × Tree) → (done : List String) → (taken : Option (List String)) → α →
      Reading (α × Option (List String))
  | [], _, taken, a => return (a, taken)
  | (k, v) :: rest, done, taken, a => do
    if isMerge k then assignAll assign once p rest done taken a
    else
      match ← textOf p k with
      | none => assignAll assign once p rest done taken a
      | some name =>
        if taken.any (·.contains name) then assignAll assign once p rest done taken a
        else
          -- nothing is taken yet as long as no merging is going on
          let isNew := taken.isNone
          let taken := taken.map (name :: ·)
          if once name && done.contains name then
            mistype
            assignAll assign once p rest done taken a
          else
            let a ← assign p isNew name v a
            assignAll assign once p rest (name :: done) taken a

/-- The names that the keys of a mapping set. -/
def ownNames (p : Place) : List (Tree × Tree) → Reading (List String)
  | [] => return []
  | (k, _) :: rest => do
    match ← ownText p k with
    | some name => return name :: (← ownNames p rest)
    | none => ownNames p rest

/-- What a merge value holds, one after the other. -/
def mergeParts : Tree → List Tree
  | .sequence _ items => items
  | t => [t]

/-- Reads a mapping, and after it what it merges in. -/
def fill {α : Type} (assign : Assign α) (once : String → Bool) : (fuel : Nat) → Place →
    (taken : Option (List String)) → List (Tree × Tree) → α → Reading (α × Option (List String))
  | 0, _, _, _, _ => throw .excessiveReferences
  | fuel + 1, p, taken, entries, a => do
    if hasClash entries then
      mistype
      return (a, taken)
    let (a, taken) ← assignAll assign once p entries [] taken a
    match entries.find? (isMerge ·.1) with
    | none => return (a, taken)
    | some (_, value) => do
      -- what the mapping sets itself comes before what is merged in
      let names ← match taken with
        | some names => pure names
        | none => ownNames p entries
      (mergeParts value).foldlM (fun (a, taken) part => do
        if !isMergeable p part then throw .mergeValue
        match ← settle p part with
        | (p, .mapping _ entries) => fill assign once fuel p taken entries a
        | _ => return (a, taken)) (a, some names)
termination_by structural fuel => fuel

/-! ### Elements -/

/-- An attribute of an element. -/
def assignAttribute : Assign (List (String × String)) := fun p fresh name v attributes => do
  match ← textOf p v with
  | some value => return Node.setAttribute attributes name value
  | none =>
    if isNull p v && (fresh || !attributes.any (·.1 == name)) then
      return Node.setAttribute attributes name ""
    else return attributes

/-- The attributes of an element, given those that it has. -/
def attributesOf (fuel : Nat) (p : Place) (t : Tree) (attributes : List (String × String)) :
    Reading (List (String × String)) := do
  match ← settle p t with
  | (p, .mapping _ entries) =>
    return (← fill assignAttribute (fun _ => false) fuel p none entries attributes).1
  | (_, .scalar tag text) => return if ← requireNull tag text then [] else attributes
  | _ => do
    mistype
    return attributes

/-- What has been read of an element. -/
structure Draft where
  tag : String
  attributes : List (String × String)
  body : String
  children : List Node

namespace Draft

/-- Nothing yet. -/
def empty : Draft := ⟨"", [], "", []⟩

/-- The element. -/
def node (d : Draft) : Node := .element d.tag d.attributes d.body d.children

end Draft

/-- The keys of an element. -/
def isField (name : String) : Bool := ["tag", "attrs", "text", "children"].contains name

/-- The nodes of those children that could be read. -/
def childrenOf (child : Tree → Reading (Option Node)) : List Tree → Reading (List Node)
  | [] => return []
  | t :: rest => do
    match ← child t with
    | some n => return n :: (← childrenOf child rest)
    | none => childrenOf child rest

/-- A part of an element. -/
def assignField : (fuel : Nat) → Assign Draft
  | 0, _, _, _, _, _ => throw .excessiveReferences
  | fuel + 1, p, _, name, v, d => do
    let child (p : Place) (t : Tree) : Reading (Option Node) := do
      match ← settle p t with
      | (_, .scalar tag text) =>
        return if ← requireNull tag text then some .absent else none
      | (p, .mapping tag entries) =>
        -- keys that are met twice spoil this child only
        if tag == "!!null" || hasClash entries then
          mistype
          return none
        else
          let (d, _) ← fill (assignField fuel) isField fuel p none entries .empty
          return some d.node
      | _ => do
        mistype
        return none
    match name with
    | "tag" => return { d with tag := (← textOf p v).getD d.tag }
    | "text" => return { d with body := (← textOf p v).getD d.body }
    | "attrs" => return { d with attributes := ← attributesOf fuel p v d.attributes }
    | "children" =>
      match ← settle p v with
      | (p, .sequence _ items) =>
        return { d with children := ← childrenOf (child p) items }
      | (_, .scalar tag text) =>
        return { d with children := if ← requireNull tag text then [] else d.children }
      | _ => do
        mistype
        return d
    | _ => return d
termination_by structural fuel => fuel

/-- The root element. -/
def rootOf (fuel : Nat) (p : Place) (t : Tree) : Reading Draft := do
  match ← settle p t with
  | (p, .mapping _ entries) =>
    return (← fill (assignField fuel) isField fuel p none entries .empty).1
  | (_, .scalar tag text) => do
    let _ ← requireNull tag text
    return .empty
  | _ => do
    mistype
    return .empty

end Reading

/-- The tree of elements of a document. -/
def Document.element (fuel : Nat) (d : Document) : Except Fault Node := do
  let (draft, tally) ← (Reading.rootOf fuel ⟨d.slots.toArray, []⟩ d.root).run ⟨1, 0, false⟩
  if tally.mistyped then throw .mistyped
  else if draft.tag == "" then throw .untagged
  else return draft.node

/-- The tree of elements that the bytes of a document hold. -/
def read (bs : Text.Bytes) : Except Fault Node := do
  let tokens := Tokens.ofInput (Input.ofBytes bs)
  let size := tokens.list.length + 2
  (← Document.ofTokens tokens).element (size * size)

end Blockwork.Yaml
