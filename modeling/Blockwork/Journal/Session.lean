import Blockwork.Files.Read
import Blockwork.Journal.Recorder

/-!
# Sessions

A session is the use of a journal between opening and closing it. Several sessions may use one
journal; what one of them writes the others see. A closed session refuses everything.
-/

namespace Blockwork

/-- The use of the journal at a path. -/
structure Session where
  path : String
  isOpen : Bool := true
deriving DecidableEq, Inhabited

namespace Session

/-- Opens the journal at a path. -/
def start (fs : Files) (path : String) : Except OpenError (Session × Files) := do
  let (_, fs) ← fs.openJournal path
  return (⟨path, true⟩, fs)

/-- Ends a session. -/
def close (s : Session) : Session := { s with isOpen := false }

/-- The journal of a session. -/
def journal (s : Session) (fs : Files) : Journal := (fs.journal? s.path).getD {}

/-- Refuses a closed session. -/
def require (s : Session) (a : Activity) : Except JournalError Unit :=
  if s.isOpen then .ok () else .error (.closed a)

/-- Opens the record of a run and gives its recorder. -/
def begin (s : Session) (fs : Files) (id document : String) (now : Nat) :
    Except JournalError (Recorder × Files) := do
  s.require .starting
  return (⟨id, 0, none⟩, fs.keepJournal s.path ((s.journal fs).begin id document now))

/-- All runs, the newest first. -/
def runs (s : Session) (fs : Files) : Except JournalError (List RunRecord) := do
  s.require .listing
  return (s.journal fs).listing

/-- The record of a run. -/
def run (s : Session) (fs : Files) (id : String) : Except JournalError RunRecord := do
  s.require .reading
  match (s.journal fs).run? id with
  | some r => return r
  | none => .error .runNotFound

/-- The steps of a run. -/
def steps (s : Session) (fs : Files) (id : String) : Except JournalError (List Step) := do
  s.require .reading
  (s.journal fs).steps id

/-- Closes the record of a run. The error is the first that the recorder met. -/
def finish (s : Session) (fs : Files) (r : Recorder) (error : String) (now : Nat) :
    Except JournalError Unit × Files :=
  match s.require .finishing with
  | .error e => (.error e, fs)
  | .ok () =>
    let fs := fs.keepJournal s.path (r.finish error now (s.journal fs))
    match r.failure with
    | some e => (.error e, fs)
    | none => (.ok (), fs)

end Session

end Blockwork
