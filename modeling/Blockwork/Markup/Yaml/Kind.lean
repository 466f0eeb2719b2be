import Blockwork.Number.Calendar

/-!
# What plain texts stand for

A text without quotes is a truth value, a number, a point in time or nothing at all when it is
written like one, and a text otherwise. The first character decides which of these are tried.

Numbers are integers of 64 bits, signed or not, in base two, eight, ten or sixteen, and
floating-point numbers; underscores in them are skipped. Points in time are a date, or a date and a
time of day. Their fields may have one digit, and a date has to exist.
-/

namespace Blockwork.Yaml

/-- What a plain text stands for. -/
inductive Kind where
  | nothing
  | truth
  /-- An integer; the flag says that it is beyond the signed range. -/
  | integer (wide : Bool)
  | real
  | time
  | text
deriving DecidableEq, Inhabited

namespace Kind

/-- The tag of a kind. -/
def tag : Kind → String
  | nothing => "!!null"
  | truth => "!!bool"
  | integer _ => "!!int"
  | real => "!!float"
  | time => "!!timestamp"
  | text => "!!str"

end Kind

/-! ### Integers -/

/-- The value of a digit in any base up to thirty-six. -/
def digit? (c : Char) : Option Nat :=
  if '0' ≤ c && c ≤ '9' then some (c.toNat - '0'.toNat)
  else if 'a' ≤ c && c ≤ 'z' then some (c.toNat - 'a'.toNat + 10)
  else if 'A' ≤ c && c ≤ 'Z' then some (c.toNat - 'A'.toNat + 10)
  else none

/-- The natural number that digits of a base write. -/
def natural? (base : Nat) (cs : List Char) : Option Nat := do
  let ds ← cs.mapM digit?
  if ds.all (· < base) then some (Numeral.ofDigits base ds) else none

/-- The base that the beginning of an unsigned integer announces, and its digits. -/
def takeBase : List Char → Nat × List Char
  | '0' :: x :: y :: rest =>
    if x == 'b' || x == 'B' then (2, y :: rest)
    else if x == 'o' || x == 'O' then (8, y :: rest)
    else if x == 'x' || x == 'X' then (16, y :: rest)
    else (8, x :: y :: rest)
  | '0' :: rest => (8, rest)
  | cs => (10, cs)

/-- The kind of an integer with a magnitude, if it has one of the two ranges. -/
def rangeOf? (signed minus : Bool) (n : Nat) : Option Kind :=
  if minus then if n ≤ Nat.pow 2 63 then some (.integer false) else none
  else if n < Nat.pow 2 63 then some (.integer false)
  else if !signed && n < Nat.pow 2 64 then some (.integer true)
  else none

/-- A sign in front, if there is one: whether there is, whether it is a minus, and the rest. -/
def splitSign : List Char → Bool × Bool × List Char
  | '+' :: cs => (true, false, cs)
  | '-' :: cs => (true, true, cs)
  | cs => (false, false, cs)

/-- An integer whose base its beginning announces. -/
def integer? (cs : List Char) : Option Kind := do
  let (signed, minus, digits) := splitSign cs
  guard (!digits.isEmpty)
  let (base, digits) := takeBase digits
  rangeOf? signed minus (← natural? base digits)

/-- An integer of a given base. -/
def integerIn? (base : Nat) (cs : List Char) : Option Kind := do
  let (signed, minus, digits) := splitSign cs
  guard (!digits.isEmpty)
  rangeOf? signed minus (← natural? base digits)

/-- An integer after a mark of its base that stands behind an optional minus; the digits may carry
a sign of their own when there is no minus in front. -/
def marked? (mark : Char) (base : Nat) : List Char → Option Kind
  | '0' :: x :: rest => if x == mark then integerIn? base rest else none
  | '-' :: '0' :: x :: rest => if x == mark then integerIn? base ('-' :: rest) else none
  | _ => none

/-! ### Floating-point numbers -/

/-- Written like a decimal number: an optional sign, digits with an optional point, and an optional
exponent, with nothing before or after. -/
def isDecimal (cs : List Char) : Bool :=
  let (_, _, cs) := splitSign cs
  let whole := cs.takeWhile Char.isDigit
  let rest := cs.dropWhile Char.isDigit
  let (fraction, rest) := match rest with
    | '.' :: rest => (rest.takeWhile Char.isDigit, rest.dropWhile Char.isDigit)
    | rest => ([], rest)
  let tail := match rest with
    | [] => true
    | x :: rest =>
      let (_, _, digits) := splitSign rest
      (x == 'e' || x == 'E') && !digits.isEmpty && digits.all Char.isDigit
  !(whole.isEmpty && fraction.isEmpty) && tail

/-! ### Points in time -/

/-- Written like a point in time: a date; a date, the letter T of either case, a time and a zone; or
a date, spaces and a time. -/
def isTime (cs : List Char) : Bool :=
  match Calendar.takeDate? true cs with
  | none => false
  | some [] => true
  | some (x :: rest) =>
    if x == 'T' || x == 't' then
      match Calendar.takeClock? true rest with
      | some zone => Calendar.isZone zone
      | none => false
    else x == ' ' && Calendar.takeClock? true (rest.dropWhile (· == ' ')) == some []

/-! ### Kinds -/

/-- The words that stand for something else than themselves. -/
def wordKind? (s : String) : Option Kind :=
  if ["true", "True", "TRUE", "false", "False", "FALSE"].contains s then some .truth
  else if ["", "~", "null", "Null", "NULL"].contains s then some .nothing
  else if [".nan", ".NaN", ".NAN", ".inf", ".Inf", ".INF", "+.inf", "+.Inf", "+.INF", "-.inf",
      "-.Inf", "-.INF"].contains s then some .real
  else none

/-- The kind of a number that begins with a sign or a digit. -/
def numberKind? (s : String) : Option Kind :=
  let cs := s.toList.filter (· != '_')
  (integer? cs)
    <|> (if isDecimal cs && (Numeral.readList? cs).isSome then some .real else none)
    <|> marked? 'b' 2 cs
    <|> marked? 'o' 8 cs

/-- What a plain text stands for; points in time are looked for on demand. -/
def kindOf (times : Bool) (s : String) : Kind :=
  match wordKind? s with
  | some k => k
  | none =>
    match s.toList with
    | '.' :: cs => if (Numeral.readList? ('.' :: cs)).isSome then .real else .text
    | c :: cs =>
      if c == '+' || c == '-' || c.isDigit then
        if times && isTime (c :: cs) then .time else (numberKind? s).getD .text
      else .text
    | [] => .text

end Blockwork.Yaml
