import Blockwork.Text.Blank

/-!
# Attributed trees

A document is first read into a tree of elements with a tag, attributes, character data and
children, whatever its encoding was. A child may be `absent`: the tree notation lets a child be
null, and such a node can be carried and printed but not looked into.
-/

namespace Blockwork

/-- One node of an attributed tree. -/
inductive Node where
  /-- A missing node. -/
  | absent
  /-- An element; its attribute names are distinct. -/
  | element (tag : String) (attributes : List (String × String)) (body : String)
      (children : List Node)
deriving Inhabited

namespace Node

/-- Sets an attribute: a name that is there keeps its place and takes the new value. -/
def setAttribute (attributes : List (String × String)) (name value : String) :
    List (String × String) :=
  if attributes.any (·.1 == name) then
    attributes.map fun a => if a.1 == name then (name, value) else a
  else attributes ++ [(name, value)]

/-- Attributes from a list of names and values in which a later name replaces an equal earlier
one. -/
def attributesOf (pairs : List (String × String)) : List (String × String) :=
  pairs.foldl (fun acc (name, value) => setAttribute acc name value) []

/-- The value of an attribute in an attribute list. -/
def lookup? (attributes : List (String × String)) (name : String) : Option String :=
  (attributes.find? (·.1 == name)).map (·.2)

/-- The character data as it is read: data that is all blank, such as the indentation between
children, reads as empty. -/
def visibleText (body : String) : String := if Text.isAllBlank body then "" else body

end Node

end Blockwork
