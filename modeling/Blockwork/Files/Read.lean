import Blockwork.Files.Basic
import Blockwork.Journal.Record

/-!
# Reading files and opening journals

Reading a file gives its bytes. Opening a journal makes the directory it is in; where there is
nothing yet, or an empty file, a new journal begins. A journal without a path is not kept.
-/

namespace Blockwork

open Text (Bytes)

/-- Why a journal cannot be opened. -/
inductive OpenError where
  /-- The directory around it cannot be made. -/
  | directory (e : FileError)
  /-- There is a directory in its place. -/
  | inaccessible
  /-- There is another file in its place. -/
  | notJournal
deriving DecidableEq, Inhabited

/-- The message of an open error. -/
def OpenError.message : OpenError → String
  | directory e => "creating trace dir: " ++ e.message
  | inaccessible => "setting busy timeout: unable to open database file: out of memory (14)"
  | notJournal => "creating tables: file is not a database (26)"

namespace Files

/-- The bytes of the file that a path leads to. -/
def read (fs : Files) (path : String) : Except FileError Bytes :=
  match fs.find path with
  | .ok (.file content) => .ok content
  | .ok (.journal j) => .ok j.encode
  | .ok .directory => .error ⟨"read", path, .isDirectory⟩
  | .error o => .error ⟨"open", path, o⟩

/-- The journal that a path leads to, if there is one. -/
def journal? (fs : Files) (path : String) : Option Journal :=
  match fs.find path with
  | .ok (.journal j) => some j
  | _ => none

/-- Keeps a journal at a path. -/
def keepJournal (fs : Files) (path : String) (j : Journal) : Files :=
  if path == "" then fs else fs.put (fs.placeOf path) (.journal j)

/-- Opens the journal at a path. -/
def openJournal (fs : Files) (path : String) : Except OpenError (Journal × Files) :=
  match fs.makeDirectory (Path.parent path) with
  | .error e => .error (.directory e)
  | .ok fs =>
    if path == "" then .ok ({}, fs)
    else match fs.find path with
      | .ok (.journal j) => .ok (j, fs)
      | .ok (.file []) => .ok ({}, fs.keepJournal path {})
      | .ok (.file _) => .error .notJournal
      | .ok .directory => .error .inaccessible
      | .error .missing => .ok ({}, fs.keepJournal path {})
      | .error _ => .error .inaccessible

end Files

end Blockwork
