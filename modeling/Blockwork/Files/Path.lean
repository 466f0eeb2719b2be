import Blockwork.Text.Case

/-!
# Paths

A path is a text with names between slashes. Cleaning a path drops empty names and single points,
and lets two points cancel the name before them; it looks at the text only, not at any files.

A `Place` is a path without a choice: the names from the root to a file or a directory. The places
that enclose a place are the beginnings of its list of names.
-/

namespace Blockwork

/-- The names from the root to a file or a directory. -/
abbrev Place := List String

namespace Place

/-- The absolute path of a place. -/
def text (p : Place) : String := "/" ++ "/".intercalate p

/-- A place and the directories that enclose it, from the inside out to the root. -/
def ancestors (p : Place) : List Place := (List.range (p.length + 1)).reverse.map (p.take ·)

end Place

namespace Path

/-- A path from the root. -/
def isAbsolute (s : String) : Bool := s.toList.head? == some '/'

/-- What stands between the slashes. -/
def parts (s : String) : List String := (s.toList.splitOn '/').map String.ofList

/-- The names that are left when a path is cleaned, given those before it, the last one first. Two
points at the root of a rooted path are dropped, and at the beginning of another are kept. -/
def reduce (rooted : Bool) : (before : List String) → List String → List String
  | before, [] => before.reverse
  | before, part :: rest =>
    if part == "" || part == "." then reduce rooted before rest
    else if part == ".." then
      match before with
      | [] => reduce rooted (if rooted then [] else [".."]) rest
      | name :: others =>
        reduce rooted (if name == ".." then ".." :: name :: others else others) rest
    else reduce rooted (part :: before) rest

/-- The shortest path with the same meaning. -/
def clean (s : String) : String :=
  let names := reduce (isAbsolute s) [] (parts s)
  if isAbsolute s then Place.text names
  else if names.isEmpty then "."
  else "/".intercalate names

/-- A path below another one, cleaned. -/
def join (a b : String) : String :=
  if a == "" then (if b == "" then "" else clean b)
  else if b == "" then clean a
  else clean (a ++ "/" ++ b)

/-- The place of a path that is looked at from a directory. -/
def resolve (here : Place) (s : String) : Place :=
  reduce true [] (if isAbsolute s then parts s else here ++ parts s)

/-- The path of the directory that a path is in. -/
def parent (s : String) : String :=
  clean (String.ofList (s.toList.reverse.dropWhile (· != '/')).reverse)

/-- The end of a path from the last point of its last name on. -/
def extension (s : String) : String :=
  let name := s.toList.reverse.takeWhile (· != '/')
  if name.contains '.' then String.ofList ('.' :: (name.takeWhile (· != '.')).reverse) else ""

/-- The paths of the directories on the way to a clean path, and that path itself. -/
def leading (s : String) : List String :=
  let names := reduce (isAbsolute s) [] (parts s)
  let first := if isAbsolute s then "/" else ""
  (List.range names.length).map fun k => first ++ "/".intercalate (names.take (k + 1))

end Path

end Blockwork
