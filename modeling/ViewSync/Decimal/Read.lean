/-!
# ViewSync.Decimal.Read

Reading decimal numerals: whole numbers as exact values, and numerals with a fraction or an exponent
as the nearest double.
-/

namespace ViewSync.Decimal

/-- The greatest signed 64-bit integer. -/
def maxInt64 : Nat := 0x7fffffffffffffff

/-- The greatest unsigned 64-bit integer. -/
def maxNat64 : Nat := 0xffffffffffffffff

/-- The value of a row of decimal digits. -/
def ofDigits (digits : List Char) : Nat :=
  Nat.ofDigitChars 10 digits 0

/-- A decimal numeral: the digits before and after the point, and the exponent. -/
structure Numeral where
  whole : List Char
  fraction : List Char
  exponent : Int

/-- All digits of a numeral as one number, to be scaled by `Numeral.scale`. -/
def Numeral.digits (n : Numeral) : Nat :=
  ofDigits (n.whole ++ n.fraction)

/-- The power of ten by which the digits count. -/
def Numeral.scale (n : Numeral) : Int :=
  n.exponent - n.fraction.length

/-- The double nearest to a numeral. A value beyond all doubles is infinite, one below half of the
least positive double is zero: both are settled by the place of the leading digit, so that no power of
ten larger than the range of doubles is ever built. -/
def Numeral.toFloat (n : Numeral) : Float :=
  let digits := n.digits
  let lead := n.scale + (Nat.toDigits 10 digits).length
  if digits = 0 ∨ lead < -330 then 0.0
  else if 320 < lead then 1.0 / 0.0
  else if n.scale < 0 then Float.ofScientific digits true (-n.scale).toNat
  else Float.ofScientific digits false n.scale.toNat

/-- An optional sign and the rest of the text. -/
def splitSign : List Char → Bool × List Char
  | '-' :: cs => (true, cs)
  | '+' :: cs => (false, cs)
  | cs => (false, cs)

/-- A whole number with an optional sign, in the range of signed 64-bit integers. -/
def readInt64? (s : String) : Option Int :=
  let (negative, digits) := splitSign s.toList
  if digits.isEmpty || !digits.all Char.isDigit then none
  else
    let value := ofDigits digits
    if negative then (if value ≤ maxInt64 + 1 then some (-(value : Int)) else none)
    else if value ≤ maxInt64 then some (value : Int) else none

/-- A whole number without a minus sign, in the range of unsigned 64-bit integers. -/
def readNat64? (s : String) : Option Nat :=
  let (negative, digits) := splitSign s.toList
  if negative || digits.isEmpty || !digits.all Char.isDigit then none
  else
    let value := ofDigits digits
    if value ≤ maxNat64 then some value else none

/-- The exponent part of a numeral: a mark, an optional sign and digits. -/
def readExponent? : List Char → Option Int
  | [] => some 0
  | c :: cs =>
    let (negative, digits) := splitSign cs
    if (c = 'e' ∨ c = 'E') ∧ !digits.isEmpty ∧ digits.all Char.isDigit then
      some (if negative then -(ofDigits digits : Int) else ofDigits digits)
    else none

/-- The digits at the start of a text, and what follows them. -/
def spanDigits (cs : List Char) : List Char × List Char :=
  (cs.takeWhile Char.isDigit, cs.dropWhile Char.isDigit)

/-- A numeral without a sign: digits, a point with digits, an exponent. At least one digit stands before
or after the point. -/
def readNumeral? (cs : List Char) : Option Numeral :=
  let (whole, rest) := spanDigits cs
  let (fraction, rest) := match rest with
    | '.' :: tail => spanDigits tail
    | _ => ([], rest)
  if whole.isEmpty ∧ fraction.isEmpty then none
  else (readExponent? rest).map fun exponent => ⟨whole, fraction, exponent⟩

/-- Any double from its text: a signed numeral, `NaN`, `inf` or `infinity`. -/
def readFloat? (s : String) : Option Float :=
  let (negative, body) := splitSign s.toList
  let magnitude : Option Float := match String.ofList (body.map Char.toLower) with
    | "nan" => some (0.0 / 0.0)
    | "inf" => some (1.0 / 0.0)
    | "infinity" => some (1.0 / 0.0)
    | _ => (readNumeral? body).map Numeral.toFloat
  magnitude.map fun x => if negative then -x else x

end ViewSync.Decimal
