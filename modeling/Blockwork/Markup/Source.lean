import Blockwork.Markup.Xml.Tree
import Blockwork.Markup.Yaml.Element

/-!
# Documents as bytes

A tree is read from one of its two encodings.
-/

namespace Blockwork

/-- The encodings of a tree. -/
inductive Encoding where
  | xml
  | yaml
deriving DecidableEq, Inhabited

/-- Why bytes are no tree. -/
inductive ReadError where
  | xml (f : Xml.Fault)
  | yaml (f : Yaml.Fault)
  /-- There is no root element. -/
  | empty
deriving DecidableEq, Inhabited

namespace ReadError

/-- The message of a read error. -/
def message : ReadError → String
  | xml (.syntaxError b) => "xml: XML syntax error: " ++ b.message
  | xml (.version v) =>
    "xml: xml: unsupported version " ++ Text.quote v ++ "; only version 1.0 is supported"
  | xml (.encoding e) =>
    "xml: xml: encoding " ++ Text.quote e ++ " declared but Decoder.CharsetReader is nil"
  | xml (.secondRoot label) => "xml: unexpected <" ++ label ++ "> after the root element"
  | xml .noRoot => "document has no root element"
  | yaml f => "yaml: " ++ f.message
  | empty => "document has no root element"

end ReadError

namespace Node

/-- Reads a tree from its bytes. -/
def read : Encoding → Text.Bytes → Except ReadError Node
  | .xml, bs =>
    match Xml.read bs with
    | .ok root => .ok root
    | .error .noRoot => .error .empty
    | .error e => .error (.xml e)
  | .yaml, bs =>
    match Yaml.read bs with
    | .ok root => .ok root
    | .error .noDocument => .error .empty
    | .error e => .error (.yaml e)

end Node

end Blockwork
