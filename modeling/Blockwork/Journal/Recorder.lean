import Blockwork.Journal.Basic
import Blockwork.Machine.Run

/-!
# Recorders

A recorder observes one run and writes its steps into a journal. The journal may refuse a row; the
recorder then keeps the reason and records nothing more, and the run goes on as if nothing had
happened. At the end the recorder closes the record of the run with the number of rows that went
in. One thing it does not survive is a list that contains itself: reading it out never ends.
-/

namespace Blockwork

/-- The recorder of one run. -/
structure Recorder where
  run : String
  /-- How many steps it tried to record. -/
  seq : Nat := 0
  /-- Why it stopped recording. -/
  failure : Option JournalError := none
deriving DecidableEq, Inhabited

namespace Recorder

/-- An observation as the step of a run. The result and the variables are read out to their last
items. If a list that is met there lies inside itself, the program does not return from reading it,
and there is no step to record. -/
def stepOf (seq : Nat) (o : Observation) : Step where
  seq := seq
  id := o.id
  opcode := o.opcode
  module := o.module
  function := o.function
  depth := o.depth
  result := o.store.read o.result
  heap := o.heap.read o.store

/-- Records an observation, if the journal takes it. -/
def observe (takes : Bool) (o : Observation) (r : Recorder) (j : Journal) : Recorder × Journal :=
  if r.failure.isSome then (r, j)
  else
    let r := { r with seq := r.seq + 1 }
    if takes then (r, j.insert ((stepOf r.seq o).toRow r.run))
    else ({ r with failure := some (.closed .saving) }, j)

/-- How many rows went into the journal. -/
def recorded (r : Recorder) : Nat := if r.failure.isSome then r.seq - 1 else r.seq

/-- Closes the record of the run with its error, empty for none. -/
def finish (r : Recorder) (error : String) (now : Nat) (j : Journal) : Journal :=
  j.finish r.run r.recorded error now

/-- A recorder as an observer; the journal takes the rows of some steps and refuses those of
others. Its memory is the recorder with the journal. -/
def observing (takes : Nat → Bool) : Observer (Recorder × Journal) :=
  ⟨fun o (r, j) => (r.observe (takes (r.seq + 1)) o j, none)⟩

/-- The same, with a journal that takes all rows or none. -/
def observer (takes : Bool) : Observer (Recorder × Journal) := observing fun _ => takes

end Recorder

end Blockwork
