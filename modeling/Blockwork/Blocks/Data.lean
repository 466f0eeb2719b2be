import Blockwork.Machine.Scope
import Blockwork.Number.Arithmetic
import Blockwork.Value.Sequence

/-!
# Data blocks

Variables and lists. The field `VARIABLE` or `LIST` names the variable; positions count from zero.
A list variable that was never assigned reads as an empty list. The five writing blocks give it a
list of its own before they evaluate anything else.
-/

namespace Blockwork.Blocks

/-- The functions of the data module. -/
inductive Data where
  | variable
  | set
  | change
  | showVariable
  | hideVariable
  | showList
  | hideList
  | contents
  | item
  | length
  | position
  | add
  | clear
  | delete
  | insert
  | replace
  | contains
deriving DecidableEq, Inhabited

namespace Data

variable {α σ : Type}

/-- The functions by name. -/
def functions : List (String × Data) :=
  [("variable", .variable), ("setvariableto", .set), ("changevariableby", .change),
   ("showvariable", .showVariable), ("hidevariable", .hideVariable), ("showlist", .showList),
   ("hidelist", .hideList), ("listcontents", .contents), ("itemoflist", .item),
   ("lengthoflist", .length), ("itemnumoflist", .position), ("addtolist", .add),
   ("deletealloflist", .clear), ("deleteoflist", .delete), ("insertatlist", .insert),
   ("replaceitemoflist", .replace), ("listcontainsitem", .contains)]

/-- The list in a variable. A variable that was never assigned has a new empty list, which is
kept in the variable only when `keep` is set. -/
def listIn (keep : Bool) (name : String) : Run α σ ListId := do
  let v ← Run.lookup name
  if v.isUndefined then
    let id ← Run.newList #[]
    if keep then Run.assign name (.list id)
    return id
  else match v.toList with
    | .ok id => return id
    | .error m => Run.fail (.through ("LIST " ++ name) (.mismatch m))

/-- The list in the variable that the field `LIST` names. -/
def list (keep : Bool) (s : Scope α σ) : Run α σ ListId := do
  listIn keep (← s.fieldText "LIST")

/-- Applies a change to a list unless it is refused. -/
def revise (id : ListId) (f : Sequence.Items → Option Sequence.Items) : Run α σ Unit :=
  Run.updateList id fun xs => (f xs).getD xs

/-- What a data block does. -/
def perform (d : Data) (s : Scope α σ) : Run α σ Value := do
  match d with
  | .variable => s.fieldVariable "VARIABLE"
  | .set =>
    let name ← s.fieldText "VARIABLE"
    let v ← s.evaluate "VALUE"
    Run.assign name v
    return .undefined
  | .change =>
    let name ← s.fieldText "VARIABLE"
    -- a variable that holds no number is refused before the slot is evaluated
    let current ← Run.lookup name
    match current.toNumber with
    | .error m => Run.fail (.through ("VARIABLE " ++ name) (.mismatch m))
    | .ok base =>
      let delta ← s.number "VALUE"
      Run.assign name (.number (base.add delta))
      return .undefined
  | .showVariable =>
    s.showVariable (← s.fieldText "VARIABLE")
    return .undefined
  | .hideVariable =>
    s.hideVariable (← s.fieldText "VARIABLE")
    return .undefined
  | .showList =>
    s.showVariable (← s.fieldText "LIST")
    return .undefined
  | .hideList =>
    s.hideVariable (← s.fieldText "LIST")
    return .undefined
  -- reading blocks do not give an unassigned variable the list that they read
  | .contents =>
    let id ← list false s
    return .text (← Run.display (.list id))
  | .item =>
    let id ← list false s
    let i ← s.index "INDEX"
    return Sequence.itemAt (← Run.itemsOf id) i
  | .length =>
    let id ← list false s
    return .number (.ofNat (← Run.itemsOf id).size)
  | .position =>
    let id ← list false s
    let item ← s.evaluate "ITEM"
    return .number (.ofInt (Sequence.indexOf (← Run.itemsOf id) item))
  -- writing blocks do, and before they evaluate their slots
  | .add =>
    let id ← list true s
    let item ← s.evaluate "ITEM"
    Run.updateList id (·.push item)
    return .undefined
  | .clear =>
    let id ← list true s
    Run.updateList id fun _ => #[]
    return .undefined
  | .delete =>
    let id ← list true s
    let i ← s.index "INDEX"
    revise id (Sequence.deleteAt? · i)
    return .undefined
  | .insert =>
    let id ← list true s
    let i ← s.index "INDEX"
    let item ← s.evaluate "ITEM"
    revise id (Sequence.insertAt? · i item)
    return .undefined
  | .replace =>
    let id ← list true s
    let i ← s.index "INDEX"
    let item ← s.evaluate "ITEM"
    revise id (Sequence.replaceAt? · i item)
    return .undefined
  | .contains =>
    let id ← list false s
    let item ← s.evaluate "ITEM"
    return .truth (Sequence.indexOf? (← Run.itemsOf id) item).isSome

end Data

end Blockwork.Blocks
