import Blockwork.Markup.Node
import Blockwork.Markup.Xml.Token

/-!
# From tokens to a tree

The tree of a document is a fold over its tokens with a stack of the elements that are open. Spaces
of names count only for the match of start and end tags. Character data belongs to the innermost
open element, all of it in one body, and a body of blanks is dropped when the element closes. Data
outside the root is ignored.
-/

namespace Blockwork.Xml

/-- An element that is open. -/
structure Frame where
  name : Name
  attributes : List (String × String)
  body : String
  /-- The children, the last one first. -/
  children : List Node

namespace Frame

/-- The element that a start tag opens. -/
def start (name : Name) (attributes : List (Name × String)) : Frame :=
  ⟨name, Node.attributesOf (attributes.map fun (n, v) => (n.label, v)), "", []⟩

/-- The element when it closes. -/
def close (f : Frame) : Node :=
  .element f.name.label f.attributes (Node.visibleText f.body) f.children.reverse

end Frame

/-- The open elements, the innermost first, and the root once it has closed. -/
structure Builder where
  stack : List Frame
  root : Option Node

namespace Builder

/-- Nothing read yet. -/
def empty : Builder := ⟨[], none⟩

/-- Takes one token in. -/
def accept (b : Builder) : Token → Except Fault Builder
  | .start name attributes =>
    match b.stack, b.root with
    | [], some _ => .error (.secondRoot name.label)
    | _, _ => .ok { b with stack := .start name attributes :: b.stack }
  | .stop name =>
    match b.stack with
    | [] => .error (.syntaxError .unopened)
    | f :: rest =>
      if f.name = name then
        match rest with
        | [] => .ok ⟨[], some f.close⟩
        | parent :: outer =>
          .ok { b with stack := { parent with children := f.close :: parent.children } :: outer }
      else .error (.syntaxError (.mismatch f.name name))
  | .text s =>
    match b.stack with
    -- text around the root is dropped
    | [] => .ok b
    | f :: rest => .ok { b with stack := { f with body := f.body ++ s } :: rest }
  | .other => .ok b

/-- Takes tokens in, from the first to the last. -/
def acceptAll (b : Builder) : List Token → Except Fault Builder
  | [] => .ok b
  | t :: ts =>
    match b.accept t with
    | .ok b => b.acceptAll ts
    | .error e => .error e

end Builder

/-- The tree of a sequence of tokens. -/
def build (ts : Tokens) : Except Fault Node :=
  match Builder.empty.acceptAll ts.list with
  | .error e => .error e
  | .ok b =>
    match ts.fault with
    | some e => .error e
    | none =>
      if b.stack.isEmpty then
        match b.root with
        | some root => .ok root
        | none => .error .noRoot
      else .error (.syntaxError .unexpectedEnd)

/-- The tree of a document. -/
def read (bs : Text.Bytes) : Except Fault Node := build (tokens bs)

end Blockwork.Xml
