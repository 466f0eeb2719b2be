import Blockwork.Number.Numeral

/-!
# Dates and times of day

The written forms of dates, times of day and zones. A date has to exist in the calendar. The fields
after the year have two digits; where `short` is set they may have one. `stamp` writes the date and
the time of day of a moment.
-/

namespace Blockwork.Calendar

/-- A field of two digits, or of one where that is allowed, and the rest. -/
def takeField? (short : Bool) : List Char → Option (Nat × List Char)
  | x :: y :: rest =>
    match Numeral.decimalDigit? x, Numeral.decimalDigit? y with
    | some m, some n => some (10 * m + n, rest)
    | some m, none => if short then some (m, y :: rest) else none
    | none, _ => none
  | [x] => if short then (Numeral.decimalDigit? x).map fun m => (m, []) else none
  | [] => none

/-- The rest after a given character. -/
def takeMark? (x : Char) : List Char → Option (List Char)
  | y :: rest => if x == y then some rest else none
  | [] => none

/-- The number of days of a month. -/
def daysIn (year month : Nat) : Nat :=
  if month = 2 then
    if year % 4 = 0 ∧ (year % 100 ≠ 0 ∨ year % 400 = 0) then 29 else 28
  else if month = 4 ∨ month = 6 ∨ month = 9 ∨ month = 11 then 30
  else 31

/-- A year of four digits, a month and a day, and the rest. -/
def takeDate? (short : Bool) (cs : List Char) : Option (List Char) := do
  let digits := cs.takeWhile Char.isDigit
  guard (digits.length = 4)
  let year := Numeral.ofDigits 10 (digits.filterMap Numeral.decimalDigit?)
  let (month, rest) ← takeField? short (← takeMark? '-' (cs.drop 4))
  let (day, rest) ← takeField? short (← takeMark? '-' rest)
  guard (1 ≤ month ∧ month ≤ 12 ∧ 1 ≤ day ∧ day ≤ daysIn year month)
  pure rest

/-- Hours and minutes, and the rest. -/
def takeMinutes? (short : Bool) (cs : List Char) : Option (List Char) := do
  let (hour, rest) ← takeField? short cs
  let (minute, rest) ← takeField? short (← takeMark? ':' rest)
  guard (hour < 24 ∧ minute < 60)
  pure rest

/-- A time of day with seconds and an optional fraction of a second, and the rest. -/
def takeClock? (short : Bool) (cs : List Char) : Option (List Char) := do
  let rest ← takeMinutes? short cs
  let (second, rest) ← takeField? short (← takeMark? ':' rest)
  guard (second < 60)
  pure (match rest with
    | x :: y :: more =>
      if (x == '.' || x == ',') && y.isDigit then more.dropWhile Char.isDigit else rest
    | _ => rest)

/-- A zone: `Z`, or a sign with hours and minutes. -/
def isZone (cs : List Char) : Bool :=
  match cs with
  | ['Z'] => true
  | s :: rest =>
    (s == '+' || s == '-') && (match takeField? false rest with
      | some (hours, ':' :: rest) => hours ≤ 24 && (match takeField? false rest with
        | some (minutes, []) => minutes ≤ 60
        | _ => false)
      | _ => false)
  | [] => false

/-! ### Writing -/

/-- A number in decimal digits, with zeros in front up to a width. -/
def padded (width n : Nat) : String :=
  let s := toString n
  String.ofList (List.replicate (width - s.length) '0') ++ s

/-- Year, month and day of a day counted from the beginning of 1970. Years are counted from March,
so that a leap day is the last of its year. -/
def dateOf (day : Nat) : Nat × Nat × Nat :=
  let shifted := day + 719468
  let era := shifted / 146097
  let ofEra := shifted % 146097
  let year := (ofEra - ofEra / 1460 + ofEra / 36524 - ofEra / 146096) / 365
  let ofYear := ofEra - (365 * year + year / 4 - year / 100)
  let month := (5 * ofYear + 2) / 153
  let date := ofYear - (153 * month + 2) / 5 + 1
  if month < 10 then (400 * era + year, month + 3, date)
  else (400 * era + year + 1, month - 9, date)

/-- Date and time of day of a moment, counted in nanoseconds from the beginning of 1970. -/
def stamp (nanoseconds : Nat) : String :=
  let seconds := nanoseconds / 1000000000
  let (year, month, day) := dateOf (seconds / 86400)
  padded 4 year ++ "-" ++ padded 2 month ++ "-" ++ padded 2 day ++ " " ++
    padded 2 (seconds / 3600 % 24) ++ ":" ++ padded 2 (seconds / 60 % 60) ++ ":" ++
    padded 2 (seconds % 60)

end Blockwork.Calendar
