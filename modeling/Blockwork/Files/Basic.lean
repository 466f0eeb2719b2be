import Blockwork.Files.Path
import Blockwork.Journal.Basic

/-!
# Files

The files that a command can see: a directory to start from, and what stands at each place.
A path is followed name by name; every name but the last has to be a directory, and what is not
there cannot be followed further.
-/

namespace Blockwork

open Text (Bytes)

/-- What stands at a place. -/
inductive Entry where
  | directory
  | file (content : Bytes)
  | journal (j : Journal)
deriving Inhabited

/-- Why a path leads nowhere. -/
inductive Obstacle where
  | missing
  | notDirectory
  | isDirectory
deriving DecidableEq, Inhabited

/-- The words for an obstacle. -/
def Obstacle.text : Obstacle → String
  | missing => "no such file or directory"
  | notDirectory => "not a directory"
  | isDirectory => "is a directory"

/-- What was tried with a path, and why it failed. -/
structure FileError where
  attempt : String
  path : String
  obstacle : Obstacle
deriving DecidableEq, Inhabited

/-- The message of a file error. -/
def FileError.message (e : FileError) : String :=
  e.attempt ++ " " ++ e.path ++ ": " ++ e.obstacle.text

/-- The directory to start from, and what stands where. -/
structure Files where
  here : Place
  entries : List (Place × Entry)
deriving Inhabited

namespace Files

/-- What stands at a place. The root is a directory. -/
def entry? (fs : Files) (p : Place) : Option Entry :=
  if p.isEmpty then some .directory else (fs.entries.find? (·.1 == p)).map (·.2)

/-- Puts something at a place. -/
def put (fs : Files) (p : Place) (e : Entry) : Files :=
  if fs.entries.any (·.1 == p) then
    { fs with entries := fs.entries.map fun x => if x.1 == p then (p, e) else x }
  else { fs with entries := fs.entries ++ [(p, e)] }

/-- Puts something at a place, with directories around it where there is nothing. -/
def add (fs : Files) (p : Place) (e : Entry) : Files :=
  let around := (p.ancestors.drop 1).reverse
  let fs := around.foldl (fun fs d => if (fs.entry? d).isSome then fs else fs.put d .directory) fs
  fs.put p e

/-- No files, and a directory to start from. -/
def empty (here : Place) : Files := add ⟨here, []⟩ here .directory

/-! ### Following paths -/

/-- Follows the names of a path from a place on. -/
def follow (fs : Files) (p : Place) : List String → Except Obstacle Entry
  | [] =>
    match fs.entry? p with
    | some e => .ok e
    | none => .error .missing
  | part :: parts =>
    match fs.entry? p with
    | none => .error .missing
    | some .directory =>
      if part == "" || part == "." then fs.follow p parts
      else if part == ".." then fs.follow p.dropLast parts
      else fs.follow (p ++ [part]) parts
    | some _ => .error .notDirectory

/-- What a path leads to. -/
def find (fs : Files) (path : String) : Except Obstacle Entry :=
  if path == "" then .error .missing
  else fs.follow (if Path.isAbsolute path then [] else fs.here) (Path.parts path)

/-- Whether a path leads to anything. -/
def has (fs : Files) (path : String) : Bool := (fs.find path).toOption.isSome

/-- The place of a path. -/
def placeOf (fs : Files) (path : String) : Place := Path.resolve fs.here path

/-- The absolute form of a path. -/
def absolute (fs : Files) (path : String) : String := (fs.placeOf path).text

/-! ### Making directories -/

/-- Makes a directory and those around it, where there is nothing yet. -/
def makeDirectory (fs : Files) (path : String) : Except FileError Files :=
  (Path.leading path).foldlM (fun fs p =>
    match fs.find p with
    | .ok .directory => .ok fs
    | .ok _ => .error ⟨"mkdir", p, .notDirectory⟩
    | .error .missing => .ok (fs.put (fs.placeOf p) .directory)
    | .error o => .error ⟨"mkdir", p, o⟩) fs

/-- Opens a file to add to it, and makes it where there is nothing. -/
def append (fs : Files) (path : String) : Except FileError Files :=
  match fs.find path with
  | .ok .directory => .error ⟨"open", path, .isDirectory⟩
  | .ok _ => .ok fs
  | .error .missing =>
    match fs.find (Path.parent path) with
    | .ok .directory => .ok (fs.put (fs.placeOf path) (.file []))
    | .ok _ => .error ⟨"open", path, .notDirectory⟩
    | .error o => .error ⟨"open", path, o⟩
  | .error o => .error ⟨"open", path, o⟩

end Files

end Blockwork
