import Blockwork.Journal.Basic
import Blockwork.Machine.Run

/-!
# Lines of output

How events, heaps, runs and steps are printed, a line each. A list is shown in brackets and a
variable without a value as `<unset>`.
-/

namespace Blockwork.Lines

/-- A text with spaces after it up to a width. -/
def padRight (width : Nat) (s : String) : String :=
  s ++ String.ofList (List.replicate (width - s.length) ' ')

/-- A number with spaces before it up to a width. -/
def padNumber (width n : Nat) : String :=
  let s := toString n
  String.ofList (List.replicate (width - s.length) ' ') ++ s

/-- The line of an event. -/
def event : Event → String
  | .shown name value => "[show] " ++ name ++ " = " ++ (value.getD .undefined).display ++ "\n"
  | .hidden name _ => "[hide] " ++ name ++ "\n"
  | .logged line => line ++ "\n"

/-- The line of a variable. -/
def binding (name : String) (d : Datum) : String :=
  let shown := match d with
    | .undefined => "<unset>"
    | .list _ => "[" ++ d.display ++ "]"
    | .noList => "[]"
    | _ => d.display
  name ++ " = " ++ shown ++ "\n"

/-- The lines of variables. -/
def bindings (bs : List (String × Datum)) : String :=
  String.join (bs.map fun (name, d) => binding name d)

/-- The lines of variables in the order of their names. -/
def sortedBindings (bs : List (String × Datum)) : String :=
  bindings (bs.mergeSort fun a b => !decide (b.1 < a.1))

/-- How a run ended. -/
def status (r : RunRecord) : String :=
  if r.finished.isNone then "unfinished"
  else if r.error == "" then "ok"
  else "failed: " ++ r.error

/-- The line of a run; `moment` writes the time at which it began. -/
def run (moment : Nat → String) (r : RunRecord) : String :=
  r.id ++ "  " ++ moment r.started ++ "  " ++ padRight 24 r.document ++ " " ++
    padNumber 4 r.steps ++ " steps  " ++ status r ++ "\n"

/-- The lines of a journal's runs. -/
def runs (moment : Nat → String) (j : Journal) : String := String.join (j.listing.map (run moment))

/-- The line of a step, indented by its depth. -/
def step (s : Step) : String :=
  padNumber 4 s.seq ++ " " ++ String.ofList (List.replicate (2 * (s.depth - 1)) ' ') ++ s.opcode ++
    " (" ++ s.id ++ ") -> " ++ s.result.display ++ "\n"

/-- The lines of the steps of a run and of the heap after the last of them. -/
def steps (ss : List Step) : String :=
  String.join (ss.map step) ++
    match ss.getLast? with
    | some last => "final heap:\n" ++ sortedBindings last.heap
    | none => ""

end Blockwork.Lines
