import Blockwork.Toml.Basic

/-!
# Reading values

The readers take the characters from the place where something begins and give the rest after it,
or nothing when it does not begin here. Texts come in four forms: between double or single quotes,
on one line or, with three quotes, on many. Double quotes have escapes; a backslash at the end of a
line of a long text joins what follows to it. A long text may end with one or two quotes of its own.
Numbers may have underscores between digits. Arrays and inline tables go over as many lines as they
need, and their last item may be followed by a comma.
-/

namespace Blockwork.Toml

/-- A blank inside a line. -/
def isBlank (c : Char) : Bool := c == ' ' || c == '\t'

/-- Drops blanks, line ends and comments. -/
def dropGaps : (inComment : Bool) → List Char → List Char
  | _, [] => []
  | inComment, c :: rest =>
    if c == '\n' then dropGaps false rest
    else if inComment then dropGaps true rest
    else if c == '#' then dropGaps true rest
    else if isBlank c || c == '\r' then dropGaps false rest
    else c :: rest

/-! ### Texts -/

/-- The character of a code, if there is one. -/
def charOf? (digits : List Char) : Option Char := do
  let ds ← digits.mapM Numeral.hexDigit?
  let n := Numeral.ofDigits 16 ds
  if (0xd800 ≤ n ∧ n < 0xe000) ∨ 0x110000 ≤ n then none else some (Char.ofNat n)

/-- The character that an escape stands for, and how many characters it takes after the
backslash. -/
def escape? : List Char → Option (Char × Nat)
  | 'b' :: _ => some ('\x08', 1)
  | 't' :: _ => some ('\t', 1)
  | 'n' :: _ => some ('\n', 1)
  | 'f' :: _ => some ('\x0c', 1)
  | 'r' :: _ => some ('\r', 1)
  | 'e' :: _ => some ('\x1b', 1)
  | '"' :: _ => some ('"', 1)
  | '\\' :: _ => some ('\\', 1)
  | 'x' :: a :: b :: _ => (charOf? [a, b]).map fun c => (c, 3)
  | 'u' :: a :: b :: c :: d :: _ => (charOf? [a, b, c, d]).map fun c => (c, 5)
  | 'U' :: a :: b :: c :: d :: e :: f :: g :: h :: _ =>
    (charOf? [a, b, c, d, e, f, g, h]).map fun c => (c, 9)
  | _ => none

/-- Reads a text up to its closing double quote. The first `skip` characters belong to an escape. -/
def takeBasic? : (skip : Nat) → List Char → Option (List Char × List Char)
  | _, [] => none
  | skip + 1, _ :: rest => takeBasic? skip rest
  | 0, c :: rest =>
    if c == '"' then some ([], rest)
    else if c == '\n' || c == '\r' then none
    else if c == '\\' then do
      let (x, size) ← escape? rest
      let (text, rest) ← takeBasic? size rest
      return (x :: text, rest)
    else do
      let (text, rest) ← takeBasic? 0 rest
      return (c :: text, rest)

/-- Reads a text up to its closing single quote. -/
def takeRaw? : List Char → Option (List Char × List Char)
  | [] => none
  | c :: rest =>
    if c == '\'' then some ([], rest)
    else if c == '\n' || c == '\r' then none
    else do
      let (text, rest) ← takeRaw? rest
      return (c :: text, rest)

/-- Drops a line end at the beginning. -/
def dropFirstBreak : List Char → List Char
  | '\n' :: rest => rest
  | '\r' :: '\n' :: rest => rest
  | cs => cs

/-- How many characters after a backslash are blanks and line ends, if a line ends among them. -/
def joinedGap? (cs : List Char) : Option Nat :=
  let gap := cs.takeWhile fun c => isBlank c || c == '\n' || c == '\r'
  if gap.contains '\n' then some gap.length else none

/-- Reads a long text up to its three closing quotes; with double quotes it has escapes. -/
def takeLong? (quote : Char) : (skip : Nat) → List Char → Option (List Char × List Char)
  | _, [] => none
  | skip + 1, _ :: rest => takeLong? quote skip rest
  | 0, c :: rest =>
    let quotes := (rest.takeWhile (· == quote)).length + 1
    if c == quote && 3 ≤ quotes then
      if 5 < quotes then none
      else some (List.replicate (quotes - 3) quote, rest.drop (quotes - 1))
    else if c == '\\' && quote == '"' then
      match joinedGap? rest with
      | some size => takeLong? quote size rest
      | none => do
        let (x, size) ← escape? rest
        let (text, rest) ← takeLong? quote size rest
        return (x :: text, rest)
    else do
      let (text, rest) ← takeLong? quote 0 rest
      return (c :: text, rest)

/-! ### Keys -/

/-- Reads one name of a key. -/
def takeName? : List Char → Option (String × List Char)
  | '"' :: rest => (takeBasic? 0 rest).map fun (s, rest) => (String.ofList s, rest)
  | '\'' :: rest => (takeRaw? rest).map fun (s, rest) => (String.ofList s, rest)
  | cs =>
    let name := cs.takeWhile isBareChar
    if name.isEmpty then none else some (String.ofList name, cs.drop name.length)

/-- Reads a key: names with points between them, and blanks around the points. -/
def takeKey? : (fuel : Nat) → List Char → Option (Key × List Char)
  | 0, _ => none
  | fuel + 1, cs => do
    let (name, rest) ← takeName? (cs.dropWhile isBlank)
    match rest.dropWhile isBlank with
    | '.' :: rest =>
      let (key, rest) ← takeKey? fuel rest
      return (name :: key, rest)
    | rest => return ([name], rest)

/-! ### Numbers and points in time -/

/-- Underscores stand between digits only, and the number ends with a digit. -/
def separatorsPlaced : (afterDigit : Bool) → List Char → Bool
  | afterDigit, [] => afterDigit
  | afterDigit, c :: rest =>
    (c != '_' || afterDigit) && separatorsPlaced (Numeral.hexDigit? c).isSome rest

/-- A number without its underscores, if they stand where they may. -/
def plainDigits? (cs : List Char) : Option (List Char) :=
  if separatorsPlaced false cs then some (cs.filter (· != '_')) else none

/-- A sign in front: whether it is a minus, and the rest. -/
def splitSign : List Char → Bool × List Char
  | '-' :: rest => (true, rest)
  | '+' :: rest => (false, rest)
  | cs => (false, cs)

/-- A number that begins with zeros it does not need. -/
def hasLeadingZero (cs : List Char) : Bool :=
  match (splitSign cs).2 with
  | '0' :: _ :: _ => true
  | _ => false

/-- An integer of 64 bits from the digits of its magnitude. -/
def integerOf? (base : Nat) (minus : Bool) (digits : List Char) : Option Literal := do
  let ds ← digits.mapM Numeral.hexDigit?
  guard (!ds.isEmpty && ds.all (· < base))
  let n := Numeral.ofDigits base ds
  guard (if minus then n ≤ Nat.pow 2 63 else n < Nat.pow 2 63)
  return .integer (if minus then -(n : Int) else n)

/-- A decimal integer. -/
def decimal? (cs : List Char) : Option Literal := do
  let (minus, digits) := splitSign (← plainDigits? cs)
  guard (!hasLeadingZero cs)
  integerOf? 10 minus digits

/-- An integer of another base, after its mark. -/
def marked? (base : Nat) (cs : List Char) : Option Literal := do
  guard (cs.head? != some '_')
  integerOf? base false (← plainDigits? cs)

/-- A floating-point number: digits stand on both sides of its point, its whole part has no zeros
in front, and it is not too large. -/
def real? (cs : List Char) : Option Literal := do
  let isMark (c : Char) : Bool := c == '.' || c == 'e' || c == 'E'
  let whole := cs.takeWhile (!isMark ·)
  let parts := cs.splitOnP isMark |>.filter (!·.isEmpty)
  guard (parts.all (separatorsPlaced false) && !hasLeadingZero whole)
  let points := cs.zip (cs.drop 1 ++ [' '])
  guard (points.all fun (a, b) => a != '.' || b.isDigit)
  let _ ← Numeral.readList? (cs.filter (· != '_'))
  return .real

/-- A point in time, with the letters and the space that may stand in it made uniform. -/
def moment? (cs : List Char) : Option Literal :=
  let cs := cs.map fun c => if c == 'z' then 'Z' else if c == 't' || c == ' ' then 'T' else c
  let clock (cs : List Char) : List (List Char) :=
    (Calendar.takeClock? false cs).toList ++ (Calendar.takeMinutes? false cs).toList
  let isClock (cs : List Char) : Bool := (clock cs).any fun rest => rest.isEmpty
  let isZoned (cs : List Char) : Bool :=
    (clock cs).any fun rest => rest.isEmpty || Calendar.isZone rest
  let ok :=
    match Calendar.takeDate? false cs with
    | some [] => true
    | some ('T' :: rest) => isZoned rest
    | some _ => false
    | none => isClock cs
  if ok then some .moment else none

/-- The digits, signs and letters that a floating-point number may have after its beginning. -/
def isRealChar (c : Char) : Bool :=
  c.isDigit || c == '_' || c == '.' || c == '-' || c == '+' || c == 'e' || c == 'E'

/-- The characters that a point in time may have after its beginning. -/
def isMomentChar (c : Char) : Bool :=
  c.isDigit || c == '-' || c == ':' || c == 'T' || c == 't' || c == ' ' || c == '.' || c == 'Z' ||
    c == 'z' || c == '+'

/-- A text without the spaces at its end. -/
def dropLastSpaces (cs : List Char) : List Char := (cs.reverse.dropWhile (· == ' ')).reverse

/-- Reads a number that begins with decimal digits. What follows them tells whether it is a point in
time, a floating-point number or an integer. -/
def takeDecimal? (moments : Bool) (cs : List Char) : Option (Literal × List Char) :=
  let (sign, unsigned) := match cs with
    | '-' :: rest => (['-'], rest)
    | '+' :: rest => (['+'], rest)
    | cs => ([], cs)
  let digits := unsigned.takeWhile Char.isDigit
  let next := unsigned.drop digits.length
  if digits.isEmpty then none
  -- the digits of a year or of an hour
  else if moments && (next.head? == some '-' || next.head? == some ':') then
    let run := cs.takeWhile isMomentChar
    (moment? (dropLastSpaces run)).map fun v => (v, cs.drop run.length)
  else
    let run := unsigned.takeWhile fun c => c.isDigit || c == '_'
    match unsigned.drop run.length with
    | c :: _ =>
      if c == '.' || c == 'e' || c == 'E' then
        let run := sign ++ unsigned.takeWhile isRealChar
        (real? run).map fun v => (v, cs.drop run.length)
      else (decimal? (sign ++ run)).map fun v => (v, unsigned.drop run.length)
    | [] => (decimal? (sign ++ run)).map fun v => (v, [])

/-- Reads a number or a point in time. -/
def takeNumber? : List Char → Option (Literal × List Char)
  | '0' :: 'x' :: rest =>
    let run := rest.takeWhile fun c => (Numeral.hexDigit? c).isSome || c == '_'
    (marked? 16 run).map fun v => (v, rest.drop run.length)
  | '0' :: 'o' :: rest =>
    let run := rest.takeWhile fun c => ('0' ≤ c && c ≤ '7') || c == '_'
    (marked? 8 run).map fun v => (v, rest.drop run.length)
  | '0' :: 'b' :: rest =>
    let run := rest.takeWhile fun c => c == '0' || c == '1' || c == '_'
    (marked? 2 run).map fun v => (v, rest.drop run.length)
  | 'i' :: 'n' :: 'f' :: rest => some (.real, rest)
  | 'n' :: 'a' :: 'n' :: rest => some (.real, rest)
  | '+' :: 'i' :: 'n' :: 'f' :: rest => some (.real, rest)
  | '+' :: 'n' :: 'a' :: 'n' :: rest => some (.real, rest)
  | '-' :: 'i' :: 'n' :: 'f' :: rest => some (.real, rest)
  | '-' :: 'n' :: 'a' :: 'n' :: rest => some (.real, rest)
  -- a point in time has no sign
  | '-' :: rest => takeDecimal? false ('-' :: rest)
  | '+' :: rest => takeDecimal? false ('+' :: rest)
  | cs => takeDecimal? true cs

/-! ### Values -/

mutual

/-- Reads a value. -/
def takeValue? : (fuel : Nat) → List Char → Option (Literal × List Char)
  | 0, _ => none
  | fuel + 1, cs =>
    let long (quote : Char) (rest : List Char) :=
      (takeLong? quote 0 (dropFirstBreak rest)).map fun (s, rest) =>
        (Literal.text (String.ofList s), rest)
    let short (x : Option (List Char × List Char)) :=
      x.map fun (s, rest) => (Literal.text (String.ofList s), rest)
    match cs.dropWhile isBlank with
    | '[' :: rest => (takeItems? fuel (dropGaps false rest)).map fun (vs, rest) => (.array vs, rest)
    | '{' :: rest =>
      (takeEntries? fuel (dropGaps false rest)).map fun (es, rest) => (.inline es, rest)
    | '"' :: '"' :: '"' :: rest => long '"' rest
    | '\'' :: '\'' :: '\'' :: rest => long '\'' rest
    | '"' :: rest => short (takeBasic? 0 rest)
    | '\'' :: rest => short (takeRaw? rest)
    | 't' :: 'r' :: 'u' :: 'e' :: rest => some (.truth true, rest)
    | 'f' :: 'a' :: 'l' :: 's' :: 'e' :: rest => some (.truth false, rest)
    | cs => takeNumber? cs
termination_by structural fuel => fuel

/-- Reads the items of an array and its closing bracket. -/
def takeItems? : (fuel : Nat) → List Char → Option (List Literal × List Char)
  | 0, _ => none
  | _, ']' :: rest => some ([], rest)
  | fuel + 1, cs => do
    let (v, rest) ← takeValue? fuel cs
    match dropGaps false rest with
    | ',' :: rest =>
      let (vs, rest) ← takeItems? fuel (dropGaps false rest)
      return (v :: vs, rest)
    | ']' :: rest => return ([v], rest)
    | _ => none
termination_by structural fuel => fuel

/-- Reads the entries of an inline table and its closing brace. -/
def takeEntries? : (fuel : Nat) → List Char → Option (List (Key × Literal) × List Char)
  | 0, _ => none
  | _, '}' :: rest => some ([], rest)
  | fuel + 1, cs => do
    let (key, rest) ← takeKey? cs.length cs
    match rest with
    | '=' :: rest =>
      let (v, rest) ← takeValue? fuel rest
      match dropGaps false rest with
      | ',' :: rest =>
        let (es, rest) ← takeEntries? fuel (dropGaps false rest)
        return ((key, v) :: es, rest)
      | '}' :: rest => return ([(key, v)], rest)
      | _ => none
    | _ => none
termination_by structural fuel => fuel

end

end Blockwork.Toml
