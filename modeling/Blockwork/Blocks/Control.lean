import Blockwork.Machine.Scope

/-!
# Control blocks

Loops and branches. A condition is evaluated anew before every iteration. Only `repeat` counts:
its number of iterations is settled before the first one. The other loops end when their condition
says so, or never.
-/

namespace Blockwork.Blocks

/-- The functions of the control module. -/
inductive Control where
  /-- Runs the body a number of times. -/
  | count
  /-- Runs the body until the condition holds. -/
  | untilTrue
  /-- Runs the body while the condition holds. -/
  | whileTrue
  /-- Runs the body for ever. -/
  | endless
  /-- Runs the body if the condition holds. -/
  | branch
  /-- Runs one of two bodies. -/
  | choice
  /-- Evaluates the condition until it holds. -/
  | await
deriving DecidableEq, Inhabited

namespace Control

variable {α σ : Type}

/-- The functions by name. -/
def functions : List (String × Control) :=
  [("repeat", count), ("repeat_until", untilTrue), ("while", whileTrue), ("forever", endless),
   ("if", branch), ("if_else", choice), ("wait_until", await)]

/-- What a control block does. It returns nothing. -/
def perform (c : Control) (s : Scope α σ) : Run α σ Value := do
  match c with
  | count =>
    -- what the body does to the variables of this slot does not change the count
    let n ← s.number "TIMES"
    Run.times (s.body "SUBSTACK") n.round.toIndex.toNat
  | untilTrue =>
    Run.loopWhile do
      if ← s.condition "CONDITION" then return false
      s.body "SUBSTACK"
      return true
  | whileTrue =>
    Run.loopWhile do
      if ← s.condition "CONDITION" then
        s.body "SUBSTACK"
        return true
      return false
  | endless =>
    Run.loopWhile do
      s.body "SUBSTACK"
      return true
  | branch =>
    if ← s.condition "CONDITION" then s.body "SUBSTACK"
  | choice =>
    if ← s.condition "CONDITION" then s.body "SUBSTACK" else s.body "SUBSTACK2"
  | await =>
    Run.loopWhile do
      return !(← s.condition "CONDITION")
  return .undefined

end Control

end Blockwork.Blocks
