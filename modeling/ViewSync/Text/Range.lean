/-!
# ViewSync.Text.Range

Sets of characters written as arithmetic progressions of code points, the form in which the
character tables of this library are given, and the Unicode property White_Space as one of them.
-/

namespace ViewSync.Text

/-- The code points `first`, `first + step`, …, up to and including `last`. -/
structure Stride where
  first : Nat
  last : Nat
  step : Nat

/-- Membership of one progression. -/
def Stride.contains (s : Stride) (code : Nat) : Bool :=
  s.first ≤ code && code ≤ s.last && (code - s.first) % s.step == 0

/-- Every code point from `first` to `last`. -/
def Stride.run (first last : Nat) : Stride := ⟨first, last, 1⟩

/-- A character belongs to a table when one of its progressions holds its code point. -/
def inTable (table : List Stride) (c : Char) : Bool :=
  table.any (·.contains c.toNat)

/-! ## white space -/

/-- The 25 code points with the property White_Space. -/
def blankTable : List Stride :=
  [.run 0x9 0xd, .run 0x20 0x20, .run 0x85 0x85, .run 0xa0 0xa0, .run 0x1680 0x1680,
   .run 0x2000 0x200a, .run 0x2028 0x2029, .run 0x202f 0x202f, .run 0x205f 0x205f,
   .run 0x3000 0x3000]

/-- The property White_Space. -/
def isBlank (c : Char) : Bool :=
  inTable blankTable c

/-- A line is blank when it holds nothing but white space. -/
def isBlankLine (line : List Char) : Bool :=
  line.all isBlank

/-- The white space that a line starts with. -/
def leadingBlanks (line : List Char) : List Char :=
  line.takeWhile isBlank

end ViewSync.Text
