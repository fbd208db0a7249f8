import ViewSync.Json.Number
import ViewSync.Json.Printer
import ViewSync.Json.Text

/-!
# ViewSync.Proofs.Json.Grammar

The texts of a JSON value. A value has many of them: white space may stand between the parts, and a character of a
string may stand for itself or be escaped. `Spells d v text` says that `text` is one of them, and that it nests at
most `d` arrays and objects. What stands inside of an array or of an object is `Listed`: parts with commas between
them. Numbers have one text if they are whole and any `Numeral` if they are doubles.
-/

namespace ViewSync.Json

/-! ## white space -/

/-- White space that may stand between the parts of a text, or nothing. -/
def Blank (cs : List Char) : Prop :=
  ∀ c ∈ cs, Input.isSpace c = true

instance (cs : List Char) : Decidable (Blank cs) :=
  List.decidableBAll _ cs

theorem blank_nil : Blank [] := nofun

/-! ## strings -/

/-- Four hexadecimal digits and the number that they stand for. -/
structure HexUnit (digits : List Char) (n : Nat) : Prop where
  length : digits.length = 4
  hex : digits.all Text.isHexDigit = true
  value : Text.ofHexDigits digits = n

/-- The letters of escapes and the characters that they stand for. -/
def marks : List (Char × Char) :=
  [('"', '"'), ('\\', '\\'), ('/', '/'), ('b', '\x08'), ('f', '\x0c'), ('n', '\n'), ('r', '\r'), ('t', '\t')]

/-- How a character may be written inside of a string: as it is, by an escape, or by one or two numbers. -/
inductive SpellsChar (c : Char) : List Char → Prop
  | plain (hquote : c ≠ '"') (hslash : c ≠ '\\') (hcontrol : ¬ c.toNat < 0x20) : SpellsChar c [c]
  | mark {m : Char} (h : (m, c) ∈ marks) : SpellsChar c ['\\', m]
  | unit {digits : List Char} (h : HexUnit digits c.toNat) : SpellsChar c ('\\' :: 'u' :: digits)
  | pair {high low : List Char} {m n : Nat} (hhigh : HexUnit high m) (hlow : HexUnit low n)
      (hm : 0xd800 ≤ m ∧ m ≤ 0xdbff) (hn : 0xdc00 ≤ n ∧ n ≤ 0xdfff)
      (hc : c.toNat = 0x10000 + (m - 0xd800) * 0x400 + (n - 0xdc00)) :
      SpellsChar c ('\\' :: 'u' :: (high ++ '\\' :: 'u' :: low))

/-- How the characters of a string may be written. -/
inductive SpellsChars : List Char → List Char → Prop
  | nil : SpellsChars [] []
  | cons {c : Char} {cs text texts : List Char} (h : SpellsChar c text) (hrest : SpellsChars cs texts) :
      SpellsChars (c :: cs) (text ++ texts)

/-- The literals of a string. -/
def SpellsText (s : String) (text : List Char) : Prop :=
  ∃ body, SpellsChars s.toList body ∧ text = '"' :: (body ++ ['"'])

/-! ## numbers -/

/-- Decimal digits, one at least. -/
def IsDigits (cs : List Char) : Prop :=
  cs ≠ [] ∧ ∀ c ∈ cs, c.isDigit = true

instance (cs : List Char) : Decidable (IsDigits cs) :=
  inferInstanceAs (Decidable (_ ∧ _))

/-- An exponent: its mark, maybe a sign, and digits. -/
structure Exponent where
  mark : Char
  sign : Option Char
  digits : List Char
  mark_eq : mark = 'e' ∨ mark = 'E'
  sign_eq : sign = none ∨ sign = some '+' ∨ sign = some '-'
  isDigits : IsDigits digits

namespace Exponent

/-- What stands behind the mark. -/
def tail (e : Exponent) : List Char :=
  e.sign.toList ++ e.digits

/-- The number `significand * 10 ^ power` with the exponent, unless it is beyond all doubles. -/
def value? (e : Exponent) (negative : Bool) (significand : Nat) (power : Int) : Option Json :=
  match exponentOverflow? 0 0 e.digits with
  | some _ => if significand ≠ 0 ∧ e.sign ≠ some '-' then none else some (signed negative 0.0)
  | none =>
    let size := Decimal.ofDigits e.digits
    (scale? significand (if e.sign = some '-' then power - size else power + size)).map (signed negative)

end Exponent

/-- A number as it may be written: digits with no zero too many in front, maybe more digits behind a point, maybe an
exponent. -/
structure Numeral where
  negative : Bool
  digits : List Char
  fraction : Option (List Char)
  exponent : Option Exponent
  isDigits : IsDigits digits
  zero_alone : digits.head? = some '0' → digits = ['0']
  fraction_isDigits : ∀ run, fraction = some run → IsDigits run

namespace Numeral

/-- The text of a fraction. -/
def fractionText : Option (List Char) → List Char
  | none => []
  | some run => '.' :: run

/-- The text of an exponent. -/
def exponentText : Option Exponent → List Char
  | none => []
  | some e => e.mark :: e.tail

/-- A number without its sign. -/
def unsigned (n : Numeral) : List Char :=
  n.digits ++ (fractionText n.fraction ++ exponentText n.exponent)

/-- The text of a number. -/
def text (n : Numeral) : List Char :=
  if n.negative then '-' :: n.unsigned else n.unsigned

/-- The double `significand * 10 ^ power` with its sign and exponent, unless it is beyond all doubles. -/
def double? (negative : Bool) (significand : Nat) (power : Int) : Option Exponent → Option Json
  | none => (scale? significand power).map (signed negative)
  | some e => e.value? negative significand power

/-- The value of a number from its first digits: a whole number if they are all and have 64 bits, and else a double if
it is not beyond all of them. -/
def valueBehind? (negative : Bool) (significand : Nat) (power : Int) :
    Option (List Char) → Option Exponent → Option Json
  | none, none => if power = 0 then some (whole negative significand) else double? negative significand power none
  | none, some e => double? negative significand power (some e)
  | some run, exponent =>
    let (significand, taken) := absorb significand run
    double? negative significand (power - taken) exponent

/-- The value of a number, unless it is beyond all doubles. -/
def value? (n : Numeral) : Option Json :=
  let (significand, taken) := absorb 0 n.digits
  valueBehind? n.negative significand (n.digits.length - taken) n.fraction n.exponent

end Numeral

/-! ## rows -/

section

variable {α : Type} (spells : α → List Char → Prop)

/-- What stands inside of brackets: parts with commas between them and white space around them. `first` says that no
part stands in front. -/
inductive Listed : Bool → List α → List Char → Prop
  | nil {first : Bool} {space : List Char} (hspace : Blank space) : Listed first [] space
  | first {a : α} {as : List α} {space text more : List Char} (hspace : Blank space) (h : spells a text)
      (hmore : Listed false as more) : Listed true (a :: as) (space ++ (text ++ more))
  | next {a : α} {as : List α} {space space' text more : List Char} (hspace : Blank space) (hspace' : Blank space')
      (h : spells a text) (hmore : Listed false as more) :
      Listed false (a :: as) (space ++ ',' :: (space' ++ (text ++ more)))

end

section

variable (spells : Json → List Char → Prop)

/-- What stands behind the name of a member: a colon and a value. -/
def SpellsBehind (v : Json) (text : List Char) : Prop :=
  ∃ space space' value, Blank space ∧ Blank space' ∧ spells v value ∧ text = space ++ ':' :: (space' ++ value)

/-- A member of an object. -/
def SpellsMember (e : String × Json) (text : List Char) : Prop :=
  ∃ name behind, SpellsText e.1 name ∧ SpellsBehind spells e.2 behind ∧ text = name ++ behind

/-- An object with some members, in their order; a name may stand there twice. -/
def SpellsObject (entries : List (String × Json)) (text : List Char) : Prop :=
  ∃ row, Listed (SpellsMember spells) true entries row ∧ text = '\x7b' :: (row ++ ['\x7d'])

/-- An array with some items, in their order. -/
def SpellsArray (items : List Json) (text : List Char) : Prop :=
  ∃ row, Listed spells true items row ∧ text = '[' :: (row ++ [']'])

end

/-! ## values -/

/-- Whole numbers of 64 bits, signed or unsigned. -/
def Fits64 (n : Int) : Prop :=
  -0x8000000000000000 ≤ n ∧ n ≤ Decimal.maxNat64

instance (n : Int) : Decidable (Fits64 n) :=
  inferInstanceAs (Decidable (_ ∧ _))

/-- The texts of values without parts. A number beyond 64 bits, or with a fraction or an exponent, is a double, and so
is `-0`; the texts of a double are all those that have its value. -/
inductive SpellsScalar : Json → List Char → Prop
  | null : SpellsScalar .null "null".toList
  | bool (value : Bool) : SpellsScalar (.bool value) (toString value).toList
  | int {n : Int} (h : Fits64 n) : SpellsScalar (.int n) (toString n).toList
  | float {n : Numeral} {x : Float} (h : n.value? = some (.float x)) : SpellsScalar (.float x) n.text
  | str {s : String} {text : List Char} (h : SpellsText s text) : SpellsScalar (.str s) text

/-- The texts of a value that nest at most some number of arrays and objects. Of several members of one name the last
one counts. -/
def Spells : Nat → Json → List Char → Prop
  | 0, v, text => SpellsScalar v text
  | d + 1, v, text =>
    SpellsScalar v text ∨
      (∃ items, SpellsArray (Spells d) items text ∧ v = .arr items) ∨
      ∃ entries, SpellsObject (Spells d) entries text ∧ v = .obj (Fields.ofPairs entries)

/-- A whole text that holds an object with some members. -/
def SpellsEntries (d : Nat) (entries : List (String × Json)) (text : String) : Prop :=
  ∃ space object space', Blank space ∧ SpellsObject (Spells d) entries object ∧ Blank space' ∧
    text.toList = space ++ (object ++ space')

end ViewSync.Json
