/-!
# ViewSync.Decimal.Shortest

The decimal text of a double is made of the fewest digits that read back as the same double, and of
all such decimals of that length the nearest one. The search is in exact arithmetic: for each number
of digits only the two neighbours of the value on that decimal grid can do.
-/

namespace ViewSync.Decimal

/-- A finite non-negative double, `mantissa * 2 ^ exponent`. -/
structure Dyadic where
  mantissa : Nat
  exponent : Int
  /-- The double below is half as far away as the double above. -/
  closeBelow : Bool
deriving Repr, DecidableEq

/-- The magnitude of a finite double. -/
def Dyadic.ofBits (bits : UInt64) : Dyadic :=
  let biased := ((bits >>> 52) &&& 0x7ff).toNat
  let fraction := (bits &&& 0xfffffffffffff).toNat
  if biased = 0 then ⟨fraction, -1074, false⟩
  else ⟨0x10000000000000 + fraction, (biased : Int) - 1075, fraction == 0 && 1 < biased⟩

/-- The number `digits * 10 ^ exponent`. -/
structure Scaled where
  digits : Nat
  exponent : Int
deriving Repr, DecidableEq

/-- Which of two equally near decimals is taken. -/
inductive Tie where
  | even
  | up
deriving DecidableEq, Repr

namespace Dyadic

/-- A quarter of the last place of `x`, as a fraction in units of `10 ^ unit`. -/
def quarter (x : Dyadic) (unit : Int) : Nat × Nat :=
  (Nat.pow 2 (x.exponent - 2).toNat * Nat.pow 10 (-unit).toNat,
    Nat.pow 2 (2 - x.exponent).toNat * Nat.pow 10 unit.toNat)

/-- Whether `digits * 10 ^ unit` is among the reals that round to `x`, ties going to an even
mantissa. -/
def admits (x : Dyadic) (unit : Int) (digits : Nat) : Bool :=
  let (num, den) := x.quarter unit
  let low := (4 * x.mantissa - if x.closeBelow then 1 else 2) * num
  let high := (4 * x.mantissa + 2) * num
  let value := digits * den
  if x.mantissa % 2 = 0 then low ≤ value && value ≤ high else low < value && value < high

/-- The multiple of `10 ^ unit` nearest to `x`, if it reads back as `x`. -/
def nearest? (tie : Tie) (x : Dyadic) (unit : Int) : Option Nat :=
  let (num, den) := x.quarter unit
  let value := 4 * x.mantissa * num
  let floor := value / den
  match x.admits unit floor, x.admits unit (floor + 1) with
  | false, false => none
  | true, false => some floor
  | false, true => some (floor + 1)
  | true, true =>
    match compare (2 * (value % den)) den, tie with
    | .lt, _ => some floor
    | .gt, _ => some (floor + 1)
    | .eq, .up => some (floor + 1)
    | .eq, .even => some (if floor % 2 = 0 then floor else floor + 1)

/-- The exponent of the leading decimal digit. -/
def leading (x : Dyadic) : Int :=
  let (num, den) := x.quarter 0
  let value := 4 * x.mantissa * num
  if den ≤ value then ((Nat.toDigits 10 (value / den)).length : Int) - 1
  else
    let count := (Nat.toDigits 10 (den / value)).length
    if den ≤ value * Nat.pow 10 (count - 1) then -((count : Int) - 1) else -(count : Int)

/-- The exact value. -/
def exact (x : Dyadic) : Scaled :=
  if 0 ≤ x.exponent then ⟨x.mantissa * Nat.pow 2 x.exponent.toNat, 0⟩
  else ⟨x.mantissa * Nat.pow 5 (-x.exponent).toNat, x.exponent⟩

/-- The shortest decimal that reads back as `x`; seventeen digits always do. -/
def shortest (tie : Tie) (x : Dyadic) : Scaled :=
  let lead := x.leading
  let found := (List.range 17).findSome? fun (n : Nat) =>
    (x.nearest? tie (lead - n)).map fun digits => (⟨digits, lead - n⟩ : Scaled)
  found.getD x.exact

end Dyadic

end ViewSync.Decimal
