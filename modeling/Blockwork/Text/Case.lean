import Blockwork.Text.CaseTable

/-!
# Letter case

Two rules about case that do not agree everywhere. `lower` maps every character by itself to its
simple lower case. `sameFold` compares two texts character by character up to simple case
folding: each class of letters that fold together has one least member, its `foldKey`, and two
texts are the same when their keys are. The long s and the Kelvin sign show the difference: they
fold with `s` and `k`, yet the long s is its own lower case.
-/

namespace Blockwork.Text

/-- The simple lower case of a character. -/
def lowerChar (c : Char) : Char :=
  if c.toNat < 0x80 then c.toLower else Char.ofNat (CaseRun.apply lowerRuns c.toNat)

/-- The least character that folds together with `c`: for a letter of ASCII its capital. -/
def foldKey (c : Char) : Char :=
  if c.toNat < 0x80 then c.toUpper else Char.ofNat (CaseRun.apply foldRuns c.toNat)

/-- The text in lower case, character by character. -/
def lower (s : String) : String := s.map lowerChar

/-- The text with each character replaced by the key of its folding class. -/
def foldKeys (s : String) : List Char := s.toList.map foldKey

/-- Equality of texts up to simple case folding. -/
def sameFold (a b : String) : Bool := foldKeys a == foldKeys b

end Blockwork.Text
