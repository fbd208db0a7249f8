import ViewSync.Decimal.Read
import ViewSync.Json.Input
import ViewSync.Json.Value

/-!
# ViewSync.Json.Number

Numbers of JSON texts. A numeral without fraction and exponent is a whole number while it is in the
range of 64-bit integers, unsigned or signed, and a double otherwise; `-0` is the double -0.0. A double
is made of a 64-bit whole number, from which the digits that do not fit are left out, and a power of
ten: the whole number is rounded to a double and then multiplied or divided, which rounds again.
-/

namespace ViewSync.Json

/-- Appends decimal digits to a number while it stays in 64 bits; gives the number of digits taken. -/
def absorb : Nat → List Char → Nat × Nat
  | n, [] => (n, 0)
  | n, c :: cs =>
    let next := n * 10 + (c.toNat - '0'.toNat)
    if Decimal.maxNat64 < next then (n, 0)
    else
      let (m, taken) := absorb next cs
      (m, taken + 1)

/-- Divides by a power of ten, in steps that are powers of ten themselves. -/
def scaleDown (x : Float) (power : Nat) : Float :=
  if power ≤ 308 then x / Float.ofScientific 1 false power
  else if x == 0.0 then x
  else scaleDown (x / Float.ofScientific 1 false 308) (power - 308)
termination_by power

/-- The double `significand * 10 ^ power`, unless it is beyond all doubles. -/
def scale? (significand : Nat) (power : Int) : Option Float :=
  let x := Float.ofNat significand
  if power < 0 then some (scaleDown x power.natAbs)
  else if power ≤ 308 then
    let y := x * Float.ofScientific 1 false power.natAbs
    if y.isInf then none else some y
  else if x == 0.0 then some x
  else none

/-- The decimal digits ahead. -/
def digitsAhead (inp : Input) : List Char :=
  inp.rest.takeWhile Char.isDigit

/-- A double with its sign. -/
def signed (negative : Bool) (x : Float) : Json :=
  .float (if negative then -x else x)

/-- A double at its end, `inp`. -/
def finishFloat (negative : Bool) (significand : Nat) (power : Int) (inp : Input) : Read Json :=
  match scale? significand power with
  | some x => .ok (signed negative x, inp)
  | none => inp.error .numberOutOfRange

/-- The greatest exponent that is added up. -/
def maxExponent : Nat := 0x7fffffff

/-- How many digits of an exponent are read until it is known to be beyond every double. -/
def exponentOverflow? : Nat → Nat → List Char → Option Nat
  | _, _, [] => none
  | n, taken, c :: cs =>
    let next := n * 10 + (c.toNat - '0'.toNat)
    if maxExponent < next then some (taken + 1) else exponentOverflow? next (taken + 1) cs

/-- Whether an exponent has a minus sign, and the input behind its sign. -/
def exponentSign (inp : Input) : Bool × Input :=
  match inp.rest with
  | '+' :: _ => (false, inp.advance 1)
  | '-' :: _ => (true, inp.advance 1)
  | _ => (false, inp)

/-- An exponent. The input stands behind its mark. -/
def readExponent (negative : Bool) (significand : Nat) (power : Int) (inp : Input) : Read Json :=
  let (down, inp) := exponentSign inp
  match inp.rest with
  | [] => inp.error .eofValue
  | c :: _ =>
    if !c.isDigit then inp.peekError .invalidNumber
    else
      let digits := digitsAhead inp
      let behind := inp.advance digits.length
      match exponentOverflow? 0 0 digits with
      | some taken =>
        if significand ≠ 0 ∧ !down then (inp.advance taken).error .numberOutOfRange
        else .ok (signed negative 0.0, behind)
      | none =>
        let size := Decimal.ofDigits digits
        finishFloat negative significand (if down then power - size else power + size) behind

/-- What follows the digits of a double: an exponent, or its end. -/
def readTail (negative : Bool) (significand : Nat) (power : Int) (inp : Input) : Read Json :=
  match inp.rest with
  | 'e' :: _ => readExponent negative significand power (inp.advance 1)
  | 'E' :: _ => readExponent negative significand power (inp.advance 1)
  | _ => finishFloat negative significand power inp

/-- A fraction. The input stands behind the point. -/
def readFraction (negative : Bool) (significand : Nat) (power : Int) (inp : Input) : Read Json :=
  let digits := digitsAhead inp
  if digits.isEmpty then
    if inp.rest.isEmpty then inp.error .eofValue else inp.peekError .invalidNumber
  else
    let (significand, taken) := absorb significand digits
    readTail negative significand (power - taken) (inp.advance digits.length)

/-- A whole number with its sign. -/
def whole (negative : Bool) (n : Nat) : Json :=
  if !negative then .int n
  else if 0 < n ∧ n ≤ 0x8000000000000000 then .int (-(n : Int))
  else .float (-(Float.ofNat n))

/-- What follows the first digits of a number: a fraction, an exponent, or its end. -/
def readBehind (negative : Bool) (significand : Nat) (power : Int) (inp : Input) : Read Json :=
  match inp.rest with
  | '.' :: _ => readFraction negative significand power (inp.advance 1)
  | 'e' :: _ => readExponent negative significand power (inp.advance 1)
  | 'E' :: _ => readExponent negative significand power (inp.advance 1)
  | _ =>
    if power = 0 then .ok (whole negative significand, inp)
    else finishFloat negative significand power inp

/-- A number. The input stands at its first digit; a sign was read before. -/
def readNumber (negative : Bool) (inp : Input) : Read Json :=
  match inp.rest with
  | [] => inp.error .eofValue
  | c :: _ =>
    if !c.isDigit then inp.peekError .invalidNumber
    else if c = '0' ∧ (inp.advance 1).atDigit then (inp.advance 1).peekError .invalidNumber
    else
      let digits := digitsAhead inp
      let behind := inp.advance digits.length
      let (significand, taken) := absorb 0 digits
      readBehind negative significand (digits.length - taken) behind

/-- Passes over a number whose value is not wanted: any size will do, and one that is cut short is
malformed. -/
def skimNumber (inp : Input) : Read Json :=
  let digits := digitsAhead inp
  if digits.isEmpty ∨ (digits.head? = some '0' ∧ 1 < digits.length) then
    inp.peekError .invalidNumber
  else
    let behind := inp.advance digits.length
    let fraction : Except Error Input := match behind.rest with
      | '.' :: _ =>
        let point := behind.advance 1
        let run := digitsAhead point
        if run.isEmpty then point.peekError .invalidNumber else .ok (point.advance run.length)
      | _ => .ok behind
    fraction.bind fun inp =>
      match inp.rest with
      | e :: _ =>
        if e = 'e' ∨ e = 'E' then
          let (_, start) := exponentSign (inp.advance 1)
          let run := digitsAhead start
          if run.isEmpty then start.peekError .invalidNumber
          else .ok (.null, start.advance run.length)
        else .ok (.null, inp)
      | [] => .ok (.null, inp)

end ViewSync.Json
