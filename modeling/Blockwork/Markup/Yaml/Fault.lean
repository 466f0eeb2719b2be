/-!
# What can be wrong with a YAML document

A text may break the rules of YAML, or be a well-formed document that is no tree of elements. The
first kind carries the line where the trouble began, counted from one; trouble on the first line
is reported without a line.
-/

namespace Blockwork.Yaml

/-- What breaks the rules of YAML. -/
inductive Problem where
  | leadingByte
  | shortSequence
  | trailingByte
  | overlongSequence
  | noCharacter
  | shortUnit
  | lowSurrogate
  | shortPair
  | highSurrogate
  | control
  | noToken
  | missingColon
  | tooDeep
  | entryPlace
  | keyPlace
  | valuePlace
  | directiveName
  | directiveNameEnd
  | unknownDirective
  | directiveEnd
  | versionNumber
  | longVersion
  | versionPoint
  | handleStart
  | handleEnd
  | baseEnd
  | anchorName
  | tagText
  | tagClose
  | tagEnd
  | escapedByte
  | escapedLeadingByte
  | escapedTrailingByte
  | zeroIndent
  | headerEnd
  | indentTab
  | plainTab
  | quotedIndicator
  | unexpectedEnd
  | unknownEscape
  | escapeDigits
  | escapeCode
  | documentStart
  | duplicateVersion
  | incompatibleVersion
  | duplicateHandle
  | unknownHandle
  | nodeContent
  | dash
  | blockKey
  | flowSequenceEnd
  | flowMappingEnd
deriving DecidableEq, Inhabited

namespace Problem

/-- A problem in words. -/
def message : Problem → String
  | leadingByte => "invalid leading UTF-8 octet"
  | shortSequence => "incomplete UTF-8 octet sequence"
  | trailingByte => "invalid trailing UTF-8 octet"
  | overlongSequence => "invalid length of a UTF-8 sequence"
  | noCharacter => "invalid Unicode character"
  | shortUnit => "incomplete UTF-16 character"
  | lowSurrogate => "unexpected low surrogate area"
  | shortPair => "incomplete UTF-16 surrogate pair"
  | highSurrogate => "expected low surrogate area"
  | control => "control characters are not allowed"
  | noToken => "found character that cannot start any token"
  | missingColon => "could not find expected ':'"
  | tooDeep => "exceeded max depth of 10000"
  | entryPlace => "block sequence entries are not allowed in this context"
  | keyPlace => "mapping keys are not allowed in this context"
  | valuePlace => "mapping values are not allowed in this context"
  | directiveName => "could not find expected directive name"
  | directiveNameEnd => "found unexpected non-alphabetical character"
  | unknownDirective => "found unknown directive name"
  | directiveEnd => "did not find expected comment or line break"
  | versionNumber => "did not find expected version number"
  | longVersion => "found extremely long version number"
  | versionPoint => "did not find expected digit or '.' character"
  | handleStart => "did not find expected '!'"
  | handleEnd => "did not find expected whitespace"
  | baseEnd => "did not find expected whitespace or line break"
  | anchorName => "did not find expected alphabetic or numeric character"
  | tagText => "did not find expected tag URI"
  | tagClose => "did not find the expected '>'"
  | tagEnd => "did not find expected whitespace or line break"
  | escapedByte => "did not find URI escaped octet"
  | escapedLeadingByte => "found an incorrect leading UTF-8 octet"
  | escapedTrailingByte => "found an incorrect trailing UTF-8 octet"
  | zeroIndent => "found an indentation indicator equal to 0"
  | headerEnd => "did not find expected comment or line break"
  | indentTab => "found a tab character where an indentation space is expected"
  | plainTab => "found a tab character that violates indentation"
  | quotedIndicator => "found unexpected document indicator"
  | unexpectedEnd => "found unexpected end of stream"
  | unknownEscape => "found unknown escape character"
  | escapeDigits => "did not find expected hexdecimal number"
  | escapeCode => "found invalid Unicode character escape code"
  | documentStart => "did not find expected <document start>"
  | duplicateVersion => "found duplicate %YAML directive"
  | incompatibleVersion => "found incompatible YAML document"
  | duplicateHandle => "found duplicate %TAG directive"
  | unknownHandle => "found undefined tag handle"
  | nodeContent => "did not find expected node content"
  | dash => "did not find expected '-' indicator"
  | blockKey => "did not find expected key"
  | flowSequenceEnd => "did not find expected ',' or ']'"
  | flowMappingEnd => "did not find expected ',' or '\x7d'"

end Problem

/-- Why a text is no tree of elements. -/
inductive Fault where
  /-- The text breaks the rules of YAML, at a line when that is not zero. -/
  | malformed (problem : Problem) (line : Nat)
  /-- A reference to a name that is not bound before it. -/
  | unknownAnchor (name : String)
  /-- A reference that leads back to itself. -/
  | cyclicAnchor (name : String)
  /-- Nearly all of the document comes from references. -/
  | excessiveReferences
  /-- A merge of something that is no mapping. -/
  | mergeValue
  /-- A text that does not read as its tag demands. -/
  | mistagged (found text wanted : String)
  /-- A binary text that is not written in base 64. -/
  | notBase64
  /-- A part of the document has another shape than an element has there. -/
  | mistyped
  /-- The root element has no tag. -/
  | untagged
  /-- There is no document. -/
  | noDocument
deriving DecidableEq, Inhabited

namespace Fault

/-- The message of a fault. -/
def message : Fault → String
  | malformed p 0 => "yaml: " ++ p.message
  | malformed p line => "yaml: line " ++ toString line ++ ": " ++ p.message
  | unknownAnchor name => "yaml: unknown anchor '" ++ name ++ "' referenced"
  | cyclicAnchor name => "yaml: anchor '" ++ name ++ "' value contains itself"
  | excessiveReferences => "yaml: document contains excessive aliasing"
  | mergeValue => "yaml: map merge requires map or sequence of maps as the value"
  | mistagged found text wanted =>
    "yaml: cannot decode " ++ found ++ " `" ++ text ++ "` as a " ++ wanted
  | notBase64 => "yaml: !!binary value contains invalid base64 data"
  | mistyped => "yaml: unmarshal errors"
  | untagged => "root element has no tag"
  | noDocument => "document has no root element"

end Fault

end Blockwork.Yaml
