import Blockwork.Machine.Scope
import Blockwork.Number.Arithmetic
import Blockwork.Value.Compare

/-!
# Operator blocks

Arithmetic, comparison, logic and texts. All of them evaluate their operands from the first to the
last before anything is combined; `and` and `or` do so too. Characters of a text count from one.
-/

namespace Blockwork.Blocks

/-- The functions of the operator module. -/
inductive Operator where
  | add
  | subtract
  | multiply
  | divide
  | modulo
  | less
  | greater
  | equals
  | both
  | either
  | negation
  | join
  | letter
  | length
  | contains
  | round
  | function
deriving DecidableEq, Inhabited

namespace Operator

variable {α σ : Type}

/-- The functions by name. -/
def functions : List (String × Operator) :=
  [("add", .add), ("subtract", .subtract), ("multiply", .multiply), ("divide", .divide),
   ("mod", .modulo), ("lt", .less), ("gt", .greater), ("equals", .equals), ("and", .both),
   ("or", .either), ("not", .negation), ("join", .join), ("letter_of", .letter),
   ("length", .length), ("contains", .contains), ("round", .round), ("mathop", .function)]

/-- The functions of one number that the field `OPERATOR` can name. Angles are in degrees. -/
def mathFunctions : List (String × (Binary64 → Binary64)) :=
  [("abs", Binary64.abs), ("floor", Binary64.floor), ("ceiling", Binary64.ceiling),
   ("sqrt", Binary64.sqrt), ("sin", Binary64.ofDegrees Float.sin),
   ("cos", Binary64.ofDegrees Float.cos), ("tan", Binary64.ofDegrees Float.tan),
   ("asin", Binary64.inDegrees Float.asin), ("acos", Binary64.inDegrees Float.acos),
   ("atan", Binary64.inDegrees Float.atan), ("ln", Binary64.ln), ("log", Binary64.logTen),
   ("e ^", Binary64.exp), ("10 ^", Binary64.tenTo)]

/-- A function of one number by its name in any case. -/
def mathFunction? (name : String) : Option (Binary64 → Binary64) :=
  (mathFunctions.find? (·.1 == Text.lower name)).map (·.2)

/-- The character at a position that counts from one, as a text; empty outside the text. -/
def letterAt (cs : List Char) (i : Int) : String :=
  if 1 ≤ i then
    match cs[(i - 1).toNat]? with
    | some c => String.singleton c
    | none => ""
  else ""

/-- A text that occurs in another. -/
def occursIn (needle : List Char) : List Char → Bool
  | [] => needle.isEmpty
  | c :: cs => needle.isPrefixOf (c :: cs) || occursIn needle cs

/-- Combines the two numbers of an arithmetic block. -/
def arithmetic (s : Scope α σ) (f : Binary64 → Binary64 → Binary64) : Run α σ Value := do
  let a ← s.number "NUM1"
  let b ← s.number "NUM2"
  return .number (f a b)

/-- Compares the two operands of a block. -/
def comparison (s : Scope α σ) (test : Ordering → Bool) : Run α σ Value := do
  let a ← s.evaluate "OPERAND1"
  let b ← s.evaluate "OPERAND2"
  return .truth (test (a.compare (← Run.state).store b))

/-- Combines the two conditions of a block. -/
def logic (s : Scope α σ) (f : Bool → Bool → Bool) : Run α σ Value := do
  let a ← s.condition "OPERAND1"
  let b ← s.condition "OPERAND2"
  return .truth (f a b)

/-- What an operator block does. -/
def perform (o : Operator) (s : Scope α σ) : Run α σ Value := do
  match o with
  | .add => arithmetic s Binary64.add
  | .subtract => arithmetic s Binary64.sub
  | .multiply => arithmetic s Binary64.mul
  | .divide => arithmetic s Binary64.div
  | .modulo => arithmetic s Binary64.modulo
  | .less => comparison s (· == .lt)
  | .greater => comparison s (· == .gt)
  | .equals =>
    let a ← s.evaluate "OPERAND1"
    let b ← s.evaluate "OPERAND2"
    return .truth (a.equal b)
  | .both => logic s (· && ·)
  | .either => logic s (· || ·)
  | .negation => return .truth (!(← s.condition "OPERAND"))
  | .join =>
    let a ← s.evaluate "STRING1"
    let b ← s.evaluate "STRING2"
    return .text ((← Run.display a) ++ (← Run.display b))
  | .letter =>
    let i ← s.index "LETTER"
    let v ← s.evaluate "STRING"
    return .text (letterAt (← Run.display v).toList i)
  | .length =>
    let v ← s.evaluate "STRING"
    return .number (.ofNat (← Run.display v).length)
  | .contains =>
    let a ← s.evaluate "STRING1"
    let b ← s.evaluate "STRING2"
    -- the lower case, not the folding that equality goes by
    let text := Text.lower (← Run.display a)
    let part := Text.lower (← Run.display b)
    return .truth (occursIn part.toList text.toList)
  | .round => return .number (← s.number "NUM").round
  | .function =>
    let name ← s.fieldText "OPERATOR"
    match mathFunction? name with
    | none => Run.fail (.unknownOperator name)
    | some f => return .number (f (← s.number "NUM"))

end Operator

end Blockwork.Blocks
