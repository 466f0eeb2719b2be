import Blockwork.Machine.Registry
import Blockwork.Program.Basic
import Blockwork.Value.Convert

/-!
# Faults of a run

Why a run stopped. A fault has a cause at its heart and may be wrapped on its way out: in the name
of the slot it came through, and once in the block whose handler met it. `wrap` adds that block
unless an inner one did, so the innermost block is the one reported.
-/

namespace Blockwork

/-- Why a block failed. -/
inductive Fault where
  | mismatch (m : Mismatch)
  | slotMissing (kind : MemberKind) (name opcode : String)
  | unknownVariable (name : String)
  | tooDeep (limit : Nat) (id : String)
  | routing (e : RoutingError)
  | unknownOperator (name : String)
  /-- A failure that a handler raises with a text of its own. -/
  | raised (text : String)
  /-- A fault with the place it came through. -/
  | through (place : String) (cause : Fault)
  /-- A handler broke off instead of failing. -/
  | panicked (text : String)
  /-- A fault with the block whose handler met it. -/
  | execution (module function id : String) (cause : Fault)
deriving DecidableEq, Inhabited

namespace Fault

/-- The message, from the outermost wrapping to the cause. -/
def message : Fault → String
  | mismatch m => m.message
  | slotMissing kind name opcode => opcode ++ ": no " ++ kind.name ++ " named " ++ name
  | unknownVariable name => "unknown variable: " ++ Text.quote name
  | tooDeep limit id =>
    "maximum nesting depth exceeded (" ++ toString limit ++ ") at block " ++ Text.quote id
  | routing e => e.message
  | unknownOperator name => "OPERATOR: unknown function " ++ Text.quote name
  | raised text => text
  | through place cause => place ++ ": " ++ cause.message
  | panicked text => "handler panic: " ++ text
  | execution module function id cause =>
    module ++ "." ++ function ++ " (block " ++ id ++ "): " ++ cause.message

/-- The innermost cause. -/
def cause : Fault → Fault
  | through _ f => f.cause
  | execution _ _ _ f => f.cause
  | f => f

/-- The block in which the fault is wrapped, as module, function and identifier. -/
def blame? : Fault → Option (String × String × String)
  | through _ f => f.blame?
  | execution module function id _ => some (module, function, id)
  | _ => none

/-- Adds the block whose handler met the fault, unless a nested block is there already. -/
def wrap (module function id : String) (f : Fault) : Fault :=
  match f.blame? with
  | some _ => f
  | none => .execution module function id f

end Fault

end Blockwork
