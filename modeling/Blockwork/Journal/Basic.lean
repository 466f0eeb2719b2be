import Blockwork.Cbor.Record

/-!
# Journals

A journal keeps what happened in runs: for each run the document, when it began and how it ended,
and a row for each completed block with its result and the heap at that moment. Results and heaps
are kept as bytes, so reading them back can fail; all else is kept as it is. Rows of a run are in
the order in which they were added.
-/

namespace Blockwork

open Text (Bytes)

/-- A completed block of a run. -/
structure Step where
  /-- The place of the step in its run, counted from one. -/
  seq : Nat
  id : String
  opcode : String
  module : String
  function : String
  depth : Nat
  result : Datum
  heap : List (String × Datum)
deriving Inhabited

/-- A step of some run as it is kept. -/
structure Row where
  run : String
  seq : Nat
  id : String
  opcode : String
  module : String
  function : String
  depth : Nat
  result : Bytes
  heap : Bytes
deriving DecidableEq, Inhabited

/-- A run as it is kept; times are in nanoseconds. -/
structure RunRecord where
  id : String
  document : String
  started : Nat
  /-- When the run ended, if it did. -/
  finished : Option Nat := none
  /-- How many steps were recorded by the end. -/
  steps : Nat := 0
  /-- Why the run failed, empty for none. -/
  error : String := ""
deriving DecidableEq, Inhabited

/-- The runs in the order in which they began, and their rows. -/
structure Journal where
  runs : List RunRecord := []
  rows : List Row := []
deriving DecidableEq, Inhabited

/-! ### Steps and rows -/

/-- A step as it is kept. -/
def Step.toRow (run : String) (s : Step) : Row where
  run := run
  seq := s.seq
  id := s.id
  opcode := s.opcode
  module := s.module
  function := s.function
  depth := s.depth
  result := s.result.encode
  heap := Bindings.encode s.heap

/-- What in a row cannot be read. -/
inductive Damage where
  | result
  | heap
deriving DecidableEq, Inhabited

/-- The step that a row keeps. -/
def Row.toStep (r : Row) : Except Damage Step :=
  match Datum.decode? r.result with
  | none => .error .result
  | some result =>
    match Bindings.decode? r.heap with
    | none => .error .heap
    | some heap => .ok ⟨r.seq, r.id, r.opcode, r.module, r.function, r.depth, result, heap⟩

/-! ### Errors -/

/-- What was being done when a journal turned out to be closed. -/
inductive Activity where
  | starting
  | listing
  | reading
  | saving
  | finishing
deriving DecidableEq, Inhabited

/-- The words for an activity. -/
def Activity.text : Activity → String
  | starting => "starting run"
  | listing => "listing runs"
  | reading => "reading run"
  | saving => "saving step"
  | finishing => "finishing run"

/-- Why a journal cannot be used. -/
inductive JournalError where
  | runNotFound
  | closed (a : Activity)
  /-- A row that cannot be read. -/
  | damaged (seq : Nat) (d : Damage)
deriving DecidableEq, Inhabited

/-- The message of a journal error. Of a damaged row it says what could not be read, and not why;
the reason would be in the words of the decoder. -/
def JournalError.message : JournalError → String
  | runNotFound => "run not found"
  | closed a => a.text ++ ": sql: database is closed"
  | damaged seq d =>
    "step " ++ toString seq ++ ": engine: unmarshal " ++
      match d with
      | .result => "value"
      | .heap => "snapshot"

/-! ### Operations -/

namespace Journal

/-- Opens the record of a run. -/
def begin (j : Journal) (id document : String) (now : Nat) : Journal :=
  { j with runs := j.runs ++ [{ id := id, document := document, started := now }] }

/-- Adds a row. -/
def insert (j : Journal) (r : Row) : Journal := { j with rows := j.rows ++ [r] }

/-- Closes the record of a run. -/
def finish (j : Journal) (id : String) (steps : Nat) (error : String) (now : Nat) : Journal :=
  { j with runs := j.runs.map fun r =>
      if r.id == id then { r with finished := some now, steps := steps, error := error } else r }

/-- The record of a run. -/
def run? (j : Journal) (id : String) : Option RunRecord := j.runs.find? (·.id == id)

/-- The newer of two runs comes first; of runs that began at one moment, the one with the lesser
identifier. -/
def newestFirst (a b : RunRecord) : Bool :=
  if a.started = b.started then !decide (b.id < a.id) else decide (b.started < a.started)

/-- All runs, the newest first. -/
def listing (j : Journal) : List RunRecord := j.runs.mergeSort newestFirst

/-- The rows of a run. -/
def rowsOf (j : Journal) (id : String) : List Row := j.rows.filter (·.run == id)

/-- Reads rows, up to the first that cannot be read. -/
def readRows : List Row → Except JournalError (List Step)
  | [] => .ok []
  | r :: rs =>
    match r.toStep with
    | .error d => .error (.damaged r.seq d)
    | .ok s => do
      let steps ← readRows rs
      return s :: steps

/-- The steps of a run. -/
def steps (j : Journal) (id : String) : Except JournalError (List Step) :=
  match j.run? id with
  | none => .error .runNotFound
  | some _ => readRows (j.rowsOf id)

end Journal

end Blockwork
