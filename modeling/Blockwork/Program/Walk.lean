import Blockwork.Program.Basic

/-!
# Walking through a program

The blocks of a chain in document order: each block, then the blocks in its slots, then the rest
of its chain. A visitor may refuse a block, which leaves out the blocks in its slots but not those
chained after it. Blocks may be equal and still be told apart, so the visitor is also told where a
block stands. The walk is given by the chains it passes, each beginning with the block that is
visited, so that a block is found together with what follows it.
-/

namespace Blockwork

namespace Chain

/-- A place in a chain, then by turns a member and a place in its chain. -/
abbrev Position := List Nat

mutual

/-- The chains whose first blocks are visited, in order, each with its position. The first block has
place `i` in a chain that is at the position `outer`. -/
def tourFrom (enter : Position → Block → Bool) (outer : Position) (i : Nat) :
    List Block → List (Position × List Block)
  | [] => []
  | b :: rest =>
    (outer ++ [i], b :: rest) ::
      (blockTour enter (outer ++ [i]) b ++ tourFrom enter outer (i + 1) rest)

/-- The chains visited in the slots of the block at a position. -/
def blockTour (enter : Position → Block → Bool) (p : Position) :
    Block → List (Position × List Block)
  | .mk opcode id members =>
    if enter p (.mk opcode id members) then slotsTour enter p 0 members else []

/-- The chains visited in several members of the block at a position; the first has number `j`. -/
def slotsTour (enter : Position → Block → Bool) (p : Position) (j : Nat) :
    List Member → List (Position × List Block)
  | [] => []
  | m :: ms => slotTour enter (p ++ [j]) m ++ slotsTour enter p (j + 1) ms

/-- The chains visited in the member at a position. -/
def slotTour (enter : Position → Block → Bool) (outer : Position) :
    Member → List (Position × List Block)
  | .expression _ chain => tourFrom enter outer 0 chain
  | .literal _ _ => []
  | .statement _ chain => tourFrom enter outer 0 chain
  | .field _ => []

end

/-- The chains whose first blocks are visited, in order, each with its position. -/
def tour (enter : Position → Block → Bool) (c : Chain) : List (Position × List Block) :=
  tourFrom enter [] 0 c

/-- The chains whose first blocks are visited by a visitor that looks at the blocks only. -/
def walk (enter : Block → Bool) (c : Chain) : List (List Block) :=
  (tour (fun _ => enter) c).map (·.2)

/-- The blocks visited, in order. -/
def visited (enter : Block → Bool) (c : Chain) : List Block := (walk enter c).filterMap List.head?

/-- Every block of the chain and of its slots, in document order. -/
def blocks (c : Chain) : List Block := visited (fun _ => true) c

/-- Drops later repetitions. -/
def distinct (xs : List String) : List String :=
  xs.foldl (fun seen x => if seen.contains x then seen else seen ++ [x]) []

/-- The opcodes that occur, each once, in the order in which they are met first. -/
def opcodes (c : Chain) : List String := distinct ((blocks c).map Block.opcode)

/-- The first block with an identifier, with the blocks chained after it. -/
def find? (c : Chain) (id : String) : Option Chain :=
  (walk (fun _ => true) c).find? fun found =>
    match found with
    | b :: _ => b.id == id
    | [] => false

end Chain

end Blockwork
