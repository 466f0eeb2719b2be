import Blockwork.Value.Convert

/-!
# Equality and order of values

Two values are compared as numbers when both are numeric, and otherwise as texts without regard to
case. Lists are equal only to themselves. The two text comparisons use different rules about case:
equality folds, order compares lower case.
-/

namespace Blockwork

/-- The order of two texts by their code points. -/
def compareText (a b : String) : Ordering :=
  if a < b then .lt else if b < a then .gt else .eq

namespace Value

/-- Equality as the program sees it. -/
def equal (v w : Value) : Bool :=
  match v, w with
  | .list a, .list b => a == b
  | .noList, .noList => true
  | .list _, _ | .noList, _ | _, .list _ | _, .noList => false
  | v, w =>
    if v.isNumeric && w.isNumeric then v.numericValue.eq w.numericValue
    else Text.sameFold v.scalarText w.scalarText

/-- Order as the program sees it. Not-a-number is level with every number. Lists are compared by
the texts that show them, so the program has no answer for a list that lies inside itself. -/
def compare (s : Store) (v w : Value) : Ordering :=
  if v.isNumeric && w.isNumeric then
    if v.numericValue.lt w.numericValue then .lt
    else if w.numericValue.lt v.numericValue then .gt
    else .eq
  else compareText (Text.lower (v.display s)) (Text.lower (w.display s))

end Value

end Blockwork
