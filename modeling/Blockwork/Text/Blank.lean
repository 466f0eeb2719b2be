/-!
# White space

What counts as blank is the Unicode property White_Space: twenty-five characters, among them the
no-break space and the line and paragraph separators, but not the zero-width space nor the byte
order mark. Trimming, the test for blank texts and the reading of numerals all go through
`isBlank`.
-/

namespace Blockwork.Text

/-- The white space characters beyond ASCII. -/
def wideBlanks : List Nat :=
  [0x85, 0xa0, 0x1680, 0x2000, 0x2001, 0x2002, 0x2003, 0x2004, 0x2005, 0x2006, 0x2007, 0x2008,
   0x2009, 0x200a, 0x2028, 0x2029, 0x202f, 0x205f, 0x3000]

/-- A character with the Unicode property White_Space. -/
def isBlank (c : Char) : Bool :=
  if c.toNat < 0x80 then c.toNat == 0x20 || (9 ≤ c.toNat && c.toNat ≤ 13)
  else wideBlanks.contains c.toNat

/-- Drops blanks at both ends of a list of characters. -/
def trimList (cs : List Char) : List Char :=
  ((cs.dropWhile isBlank).reverse.dropWhile isBlank).reverse

/-- The text without the blanks at its two ends. -/
def trim (s : String) : String := String.ofList (trimList s.toList)

/-- A text of blanks only; the empty text is one. -/
def isAllBlank (s : String) : Bool := s.toList.all isBlank

end Blockwork.Text
