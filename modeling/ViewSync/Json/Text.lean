import ViewSync.Json.Input
import ViewSync.Text.Hex

/-!
# ViewSync.Json.Text

String literals of JSON texts. An escape by number stands for a UTF-16 unit, and two of them for a
character beyond U+FFFF; half of such a pair stands for nothing and is refused.
-/

namespace ViewSync.Json

/-- The place that is reached when the next `n` bytes count as read. -/
def placeAfterBytes : Nat → List Char → Place → Place
  | n, c :: cs, p =>
    if n = 0 then p
    else if c.utf8Size ≤ n then
      placeAfterBytes (n - c.utf8Size) cs
        (if c = '\n' then ⟨p.line + 1, 0⟩ else ⟨p.line, p.col + c.utf8Size⟩)
    else ⟨p.line, p.col + n⟩
  | _, [], p => p

/-- How many bytes a text takes. -/
def byteCount (cs : List Char) : Nat :=
  cs.foldl (fun n c => n + c.utf8Size) 0

/-- Four hexadecimal digits. A text with fewer than four bytes left ends too early. -/
def readUnit (inp : Input) : Except Error Nat :=
  match Text.readHex? 4 inp.rest with
  | some n => .ok n
  | none =>
    if byteCount inp.rest < 4 then (inp.advance inp.rest.length).error .eofString
    else .error (.at_ .invalidEscape (placeAfterBytes 4 inp.rest inp.place))

/-- A unit in the first half of a pair. -/
def isLeading (n : Nat) : Bool :=
  0xd800 ≤ n && n ≤ 0xdbff

/-- A unit in the second half of a pair. -/
def isTrailing (n : Nat) : Bool :=
  0xdc00 ≤ n && n ≤ 0xdfff

/-- The character of a pair. -/
def joinUnits (leading trailing : Nat) : Char :=
  Char.ofNat (0x10000 + (leading - 0xd800) * 0x400 + (trailing - 0xdc00))

/-- Expects a character of the second half of a pair. -/
def expectUnitMark (c : Char) (inp : Input) : Except Error Unit :=
  match inp.rest with
  | [] => inp.error .eofString
  | d :: _ => if d = c then .ok () else inp.peekError .hexEscapeEnd

/-- An escape by number: its character, and how many characters it takes. The input stands behind
the `u`. -/
def readNumbered (inp : Input) : Except Error (Char × Nat) := do
  let first ← readUnit inp
  if isTrailing first then (inp.advance 4).error .loneSurrogate
  else if !isLeading first then .ok (Char.ofNat first, 4)
  else
    expectUnitMark '\\' (inp.advance 4)
    expectUnitMark 'u' (inp.advance 5)
    let second ← readUnit (inp.advance 6)
    if isTrailing second then .ok (joinUnits first second, 10)
    else (inp.advance 10).error .loneSurrogate

/-- An escape: its character, and how many characters it takes. The input stands behind the
backslash. -/
def readEscape (inp : Input) : Except Error (Char × Nat) :=
  match inp.rest with
  | [] => inp.error .eofString
  | c :: _ =>
    match c with
    | '"' => .ok ('"', 1)
    | '\\' => .ok ('\\', 1)
    | '/' => .ok ('/', 1)
    | 'b' => .ok ('\x08', 1)
    | 'f' => .ok ('\x0c', 1)
    | 'n' => .ok ('\n', 1)
    | 'r' => .ok ('\r', 1)
    | 't' => .ok ('\t', 1)
    | 'u' => (readNumbered (inp.advance 1)).map fun (c, n) => (c, n + 1)
    | _ => inp.peekError .invalidEscape

/-- The characters of a string up to its closing quote. -/
def readChars (inp : Input) : Read (List Char) :=
  match _h : inp.rest with
  | [] => inp.error .eofString
  | c :: _ =>
    if c = '"' then .ok ([], inp.advance 1)
    else if c = '\\' then
      match readEscape (inp.advance 1) with
      | .error e => .error e
      | .ok (d, n) => (readChars (inp.advance (1 + n))).map fun (cs, next) => (d :: cs, next)
    else if c.toNat < 0x20 then inp.peekError .controlCharacter
    else (readChars (inp.advance 1)).map fun (cs, next) => (c :: cs, next)
termination_by inp.rest.length
decreasing_by all_goals simp [_h]; try omega

/-- A string. The input stands behind its opening quote. -/
def readString (inp : Input) : Read String :=
  (readChars inp).map fun (cs, next) => (String.ofList cs, next)

/-- How many characters an escape takes when its value is not wanted: half of a pair will do. -/
def skimEscape (inp : Input) : Except Error Nat :=
  match inp.rest with
  | 'u' :: _ => (readUnit (inp.advance 1)).map fun _ => 5
  | _ => (readEscape inp).map (·.2)

/-- Passes over a string whose content is not wanted. -/
def skimString (inp : Input) : Read String :=
  match _h : inp.rest with
  | [] => inp.error .eofString
  | c :: _ =>
    if c = '"' then .ok ("", inp.advance 1)
    else if c = '\\' then
      match skimEscape (inp.advance 1) with
      | .error e => .error e
      | .ok n => skimString (inp.advance (1 + n))
    else if c.toNat < 0x20 then inp.peekError .controlCharacter
    else skimString (inp.advance 1)
termination_by inp.rest.length
decreasing_by all_goals simp [_h]; try omega

end ViewSync.Json
