import Blockwork.Files.Read
import Blockwork.Markup.Source

/-!
# Documents in files

The end of a path says how the document is encoded.
-/

namespace Blockwork

/-- Why a file is no document. -/
inductive DocumentError where
  | unreadable (path : String) (e : FileError)
  | malformed (path : String) (e : ReadError)
deriving DecidableEq, Inhabited

/-- The message of a document error. -/
def DocumentError.message : DocumentError → String
  | unreadable path e => "cannot read " ++ path ++ ": " ++ e.message
  | malformed path e => "parse error in " ++ path ++ ": " ++ e.message

/-- The encoding that a path announces. -/
def Encoding.ofPath (path : String) : Encoding :=
  let ending := Text.lower (Path.extension path)
  if ending == ".yaml" || ending == ".yml" then .yaml else .xml

/-- The tree of a document in a file. -/
def Node.load (fs : Files) (path : String) : Except DocumentError Node := do
  let content ← (fs.read path).mapError (.unreadable path)
  (Node.read (.ofPath path) content).mapError (.malformed path)

end Blockwork
