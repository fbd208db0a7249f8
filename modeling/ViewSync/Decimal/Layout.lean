import ViewSync.Decimal.Shortest

/-!
# ViewSync.Decimal.Layout

How the shortest digits of a double are laid out as text. The formats that this library writes differ
in a few decisions, which `Layout` lists; the text itself is one function of the layout.
-/

namespace ViewSync.Decimal

/-- The decisions of a number format. -/
structure Layout where
  /-- The exponents of the leading digit that are written without an exponent; `none` means all. -/
  plain : Option (Int × Int)
  /-- A whole number keeps a point and a zero. -/
  pointZero : Bool
  tie : Tie

/-- The digits of a number without the zeros at its end, and the exponent of the first one. -/
def Scaled.significant (d : Scaled) : List Char × Int :=
  let all := Nat.toDigits 10 d.digits
  ((all.reverse.dropWhile (· == '0')).reverse, d.exponent + (all.length : Int) - 1)

/-- Digits with the point in its place: the first digit counts `10 ^ lead`. -/
def positional (pointZero : Bool) (digits : List Char) (lead : Int) : List Char :=
  if lead < 0 then
    ['0', '.'] ++ List.replicate (-lead - 1).toNat '0' ++ digits
  else
    let whole := lead.toNat + 1
    let fraction := digits.drop whole
    digits.take whole ++ List.replicate (whole - digits.length) '0' ++
      if fraction.isEmpty then (if pointZero then ['.', '0'] else []) else '.' :: fraction

/-- Digits with a point after the first one, and the exponent with its sign. -/
def scientific (digits : List Char) (lead : Int) : List Char :=
  digits.take 1 ++ (if (digits.drop 1).isEmpty then [] else '.' :: digits.drop 1) ++
    'e' :: (if lead < 0 then '-' else '+') :: Nat.toDigits 10 lead.natAbs

/-- The text of a positive number. -/
def Layout.text (layout : Layout) (d : Scaled) : List Char :=
  let (digits, lead) := d.significant
  match layout.plain with
  | none => positional layout.pointZero digits lead
  | some (low, high) =>
    if low ≤ lead ∧ lead ≤ high then positional layout.pointZero digits lead
    else scientific digits lead

/-- The text of a finite double; zero keeps its sign. -/
def Layout.finite (layout : Layout) (x : Float) : String :=
  let bits := x.toBits
  let sign := if bits >>> 63 = 0 then [] else ['-']
  let magnitude := Dyadic.ofBits bits
  String.ofList <| sign ++
    if magnitude.mantissa = 0 then
      positional layout.pointZero ['0'] 0
    else layout.text (magnitude.shortest layout.tie)

/-- Number literals of view sources and of compiled text: never an exponent, no point without need. -/
def literal : Layout := ⟨none, false, .up⟩

/-- Numbers of JSON texts: always a point or an exponent. -/
def json : Layout := ⟨some (-5, 15), true, .even⟩

/-- The text of any double as a number literal. -/
def literalText (x : Float) : String :=
  if x.isNaN then "NaN"
  else if x.isInf then (if x < 0.0 then "-inf" else "inf")
  else literal.finite x

end ViewSync.Decimal
