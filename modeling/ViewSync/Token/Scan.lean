import ViewSync.Decimal.Read
import ViewSync.Source.Cursor
import ViewSync.Text.Hex
import ViewSync.Token.Basic
import ViewSync.Token.LexError

/-!
# ViewSync.Token.Scan

Single lexemes. `scan` reads what stands at a cursor, white space before it skipped: a token, the end
of a line, or something that leaves no token. It never fails: what is wrong is noted beside the result,
and a cursor that had characters ahead has fewer of them afterwards (`length_rest_scan_lt`).
-/

namespace ViewSync

/-! ## Character classes -/

/-- White space inside a line. -/
def isSpace (c : Char) : Bool :=
  c == ' ' || c == '\t' || c == '\r' || c == '\x0c'

/-- Letters that a name may start with; ASCII only. -/
def isNameStart (c : Char) : Bool :=
  c.isAlpha || c == '_'

/-- Characters that a name may go on with. -/
def isNamePart (c : Char) : Bool :=
  c.isAlphanum || c == '_'

/-- Digits and the separator between them. -/
def isDigitPart (c : Char) : Bool :=
  c.isDigit || c == '_'

/-- Hexadecimal digits and the separator between them. -/
def isHexPart (c : Char) : Bool :=
  Text.isHexDigit c || c == '_'

/-- A row of digits without its separators. -/
def withoutSeparators (cs : List Char) : List Char :=
  cs.filter (· != '_')

/-! ## Lexemes -/

/-- What stands at a cursor. -/
inductive Lexeme where
  /-- The end of a line. -/
  | lineEnd
  /-- A comment, a joined line, a refused character, or nothing at all. -/
  | trivia
  | token (kind : TokenKind)
deriving DecidableEq

/-- A lexeme, the cursor behind it, and what was wrong with it. -/
structure Scanned where
  lexeme : Lexeme
  next : Cursor
  faults : List (Fault LexError)
deriving DecidableEq

/-! ## Numbers -/

/-- The digits of a fraction, if a point with a digit after it is ahead. -/
def fractionRun : List Char → List Char
  | '.' :: c :: cs => if c.isDigit then (c :: cs).takeWhile isDigitPart else []
  | _ => []

/-- How many characters introduce an exponent: a mark, a sign if there is one, before a digit. -/
def exponentMark : List Char → Nat
  | e :: c :: cs =>
    if e == 'e' || e == 'E' then
      if c.isDigit then 1
      else if c == '+' || c == '-' then
        match cs with
        | d :: _ => if d.isDigit then 2 else 0
        | [] => 0
      else 0
    else 0
  | _ => 0

/-- The number at the start of a text: its token and its length. A number without fraction and exponent
is whole while it fits 64 bits with sign. -/
def decimalNumber (cs : List Char) : TokenKind × Nat :=
  let whole := cs.takeWhile isDigitPart
  let afterWhole := cs.drop whole.length
  let fraction := fractionRun afterWhole
  let fractionSize := if fraction.isEmpty then 0 else fraction.length + 1
  let afterFraction := afterWhole.drop fractionSize
  let mark := exponentMark afterFraction
  let exponent := (afterFraction.drop mark).takeWhile isDigitPart
  let negative := (afterFraction.take mark).contains '-'
  let wholeDigits := withoutSeparators whole
  if fractionSize = 0 ∧ mark = 0 then
    let value := Decimal.ofDigits wholeDigits
    (if value ≤ Decimal.maxInt64 then .int value
      else .float (Decimal.Numeral.toFloat ⟨wholeDigits, [], 0⟩), whole.length)
  else
    let size := Decimal.ofDigits (withoutSeparators exponent)
    let power : Int := if mark = 0 then 0 else if negative then -(size : Int) else size
    (.float (Decimal.Numeral.toFloat ⟨wholeDigits, withoutSeparators fraction, power⟩),
      whole.length + fractionSize + if mark = 0 then 0 else mark + exponent.length)

/-- A number literal. The cursor stands at its first character. -/
def scanNumber (cur : Cursor) : Scanned :=
  match cur.rest with
  | '0' :: x :: cs =>
    if x == 'x' || x == 'X' then
      let run := cs.takeWhile isHexPart
      let digits := withoutSeparators run
      let next := cur.advance (2 + run.length)
      let value := Text.ofHexDigits digits
      if !digits.isEmpty && value ≤ Decimal.maxInt64 then ⟨.token (.int value), next, []⟩
      else ⟨.token (.int 0), next, [⟨.badHex (String.ofList digits), next.spanFrom cur.pos⟩]⟩
    else
      let (kind, size) := decimalNumber cur.rest
      ⟨.token kind, cur.advance (max size 1), []⟩
  | _ =>
    let (kind, size) := decimalNumber cur.rest
    ⟨.token kind, cur.advance (max size 1), []⟩

/-! ## Names -/

/-- A name or a word of the language. The cursor stands at its first character. -/
def scanName (cur : Cursor) : Scanned :=
  let text := cur.rest.takeWhile isNamePart
  ⟨.token (.ofWord (String.ofList text)), cur.advance (max text.length 1), []⟩

/-! ## Strings -/

/-- What an escape sequence stands for, the cursor behind it, and what was wrong with it. -/
structure Escaped where
  chars : List Char
  next : Cursor
  faults : List (Fault LexError)

/-- An escape with a fixed number of hexadecimal digits. The cursor stands behind the kind; the digits
before the first character that is none are consumed in any case. -/
def scanNumberedEscape (start : Pos) (kind : Char) (width : Nat) (cur : Cursor) : Escaped :=
  let digits := (cur.rest.take width).takeWhile Text.isHexDigit
  let next := cur.advance digits.length
  let value := Text.ofHexDigits digits
  if digits.length = width ∧ value.isValidChar then ⟨[Char.ofNat value], next, []⟩
  else ⟨[], next, [⟨.badEscape kind, next.spanFrom start⟩]⟩

/-- An escape sequence. The cursor stands behind the backslash, which is at `start`. An unknown escape
keeps its backslash; a newline joins two lines. -/
def scanEscape (start : Pos) (cur : Cursor) : Escaped :=
  match cur.rest with
  | [] => ⟨[], cur, []⟩
  | c :: _ =>
    let next := cur.advance 1
    match c with
    | '\n' => ⟨[], next, []⟩
    | 'n' => ⟨['\n'], next, []⟩
    | 't' => ⟨['\t'], next, []⟩
    | 'r' => ⟨['\r'], next, []⟩
    | '0' => ⟨['\x00'], next, []⟩
    | '\\' => ⟨['\\'], next, []⟩
    | '\'' => ⟨['\''], next, []⟩
    | '"' => ⟨['"'], next, []⟩
    | 'x' => scanNumberedEscape start 'x' 2 next
    | 'u' => scanNumberedEscape start 'u' 4 next
    | other => ⟨['\\', other], next, []⟩

theorem length_rest_scanEscape_le (start : Pos) (cur : Cursor) :
    (scanEscape start cur).next.rest.length ≤ cur.rest.length := by
  unfold scanEscape
  split
  · simp
  · simp only
    split <;> simp [scanNumberedEscape] <;> split <;> simp

/-- The content of a string, the cursor behind its closing quotes, and what was wrong with it. -/
structure StringBody where
  content : List Char
  next : Cursor
  faults : List (Fault LexError)
  closed : Bool

/-- The body puts more content and more faults in front of what follows. -/
def StringBody.after (chars : List Char) (faults : List (Fault LexError)) (body : StringBody) :
    StringBody :=
  ⟨chars ++ body.content, body.next, faults ++ body.faults, body.closed⟩

/-- The body of a string up to its closing quotes: one quote, or three of them, and then the string may
run over several lines. -/
def scanBody (quote : Char) (triple : Bool) (cur : Cursor) : StringBody :=
  match _h : cur.rest with
  | [] => ⟨[], cur, [], false⟩
  | c :: cs =>
    if c == '\n' && !triple then ⟨[], cur, [], false⟩
    else if c == quote && !triple then ⟨[], cur.advance 1, [], true⟩
    else if c == quote && cs.take 2 == [quote, quote] then ⟨[], cur.advance 3, [], true⟩
    else if c == '\\' then
      let escape := scanEscape cur.pos (cur.advance 1)
      (scanBody quote triple escape.next).after escape.chars escape.faults
    else (scanBody quote triple (cur.advance 1)).after [c] []
termination_by cur.rest.length
decreasing_by
  · have := length_rest_scanEscape_le cur.pos (cur.advance 1)
    simp [_h] at this ⊢
    omega
  · simp [_h]

/-- A string literal. The cursor stands at its first quote. -/
def scanString (quote : Char) (cur : Cursor) : Scanned :=
  let triple := (cur.rest.drop 1).take 2 == [quote, quote]
  let body := scanBody quote triple (cur.advance (if triple then 3 else 1))
  ⟨.token (.str (String.ofList body.content)), body.next,
    body.faults ++ if body.closed then [] else [⟨.unterminatedString, body.next.spanFrom cur.pos⟩]⟩

/-! ## Operators and punctuation -/

/-- The texts of operators, brackets and punctuation, longer ones first: of two that fit the longer one
is meant. -/
def operatorTable : List (List Char × TokenKind) :=
  let aug : List (List Char × TokenKind) :=
    [BinaryOp.pow, .floorDiv, .shiftLeft, .shiftRight, .add, .sub, .mul, .div, .mod, .bitOr, .bitAnd,
      .bitXor].map fun op => (op.symbol.toList ++ ['='], .augAssign op)
  let plain : List (List Char × TokenKind) :=
    [Symbol.arrow, .doubleStar, .doubleSlash, .shiftLeft, .shiftRight, .lessEq, .greaterEq, .eqEq,
      .notEq, .plus, .minus, .star, .slash, .percent, .pipe, .amp, .caret, .tilde, .less, .greater, .eq,
      .leftParen, .rightParen, .leftBracket, .rightBracket, .leftBrace, .rightBrace, .comma, .colon,
      .dot, .at].map fun s => (s.text.toList, .symbol s)
  aug ++ plain

/-- The longest operator at the start of a text, with its length. -/
def operator? (cs : List Char) : Option (TokenKind × Nat) :=
  (operatorTable.find? fun entry => entry.1.isPrefixOf cs).map fun entry =>
    (entry.2, entry.1.length)

/-- An operator, or a character that starts nothing. -/
def scanOperator (c : Char) (cur : Cursor) : Scanned :=
  match operator? cur.rest with
  | some (kind, size) => ⟨.token kind, cur.advance (max size 1), []⟩
  | none =>
    let next := cur.advance 1
    ⟨.trivia, next, [⟨.unexpected c, next.spanFrom cur.pos⟩]⟩

/-- A backslash outside a string: it joins its line with the next one. -/
def scanJoin (cur : Cursor) : Scanned :=
  let behind := cur.advance 1
  let behind := if behind.rest.head? = some '\r' then behind.advance 1 else behind
  if behind.rest.head? = some '\n' then ⟨.trivia, behind.advance 1, []⟩
  else ⟨.trivia, behind, [⟨.strayBackslash, behind.spanFrom cur.pos⟩]⟩

/-! ## One lexeme -/

/-- Whether a number starts here: with a digit, or with a point and a digit after it. -/
def startsNumber : List Char → Bool
  | '.' :: c :: _ => c.isDigit
  | c :: _ => c.isDigit
  | [] => false

/-- What stands at a cursor with no white space ahead. -/
def scanHere (cur : Cursor) : Scanned :=
  match cur.rest with
  | [] => ⟨.trivia, cur, []⟩
  | c :: _ =>
    if c == '\n' then ⟨.lineEnd, cur.advance 1, []⟩
    else if c == '#' then ⟨.trivia, (cur.advance 1).skipWhile (· != '\n'), []⟩
    else if c == '\\' then scanJoin cur
    else if c == '"' || c == '\'' then scanString c cur
    else if startsNumber cur.rest then scanNumber cur
    else if isNameStart c then scanName cur
    else scanOperator c cur

/-- What stands at a cursor, behind the white space ahead, and the position where it starts. -/
def scan (cur : Cursor) : Pos × Scanned :=
  let cur := cur.skipWhile isSpace
  (cur.pos, scanHere cur)

/-! ## Every lexeme consumes -/

theorem length_rest_scanBody_le (quote : Char) (triple : Bool) (cur : Cursor) :
    (scanBody quote triple cur).next.rest.length ≤ cur.rest.length := by
  fun_induction scanBody quote triple cur with
  | case1 => simp
  | case2 => simp
  | case3 => simp
  | case4 => simp
  | case5 cur c cs h _ _ _ _ escape ih =>
    have := length_rest_scanEscape_le cur.pos (cur.advance 1)
    simp [escape, StringBody.after] at *
    omega
  | case6 cur c cs h _ _ _ _ ih =>
    simp [StringBody.after] at *
    omega

theorem length_rest_scanNumber_lt {cur : Cursor} (h : cur.rest ≠ []) :
    (scanNumber cur).next.rest.length < cur.rest.length := by
  unfold scanNumber
  split
  · split
    · simp only
      split <;> exact Cursor.length_rest_advance_lt (by omega) h
    · exact Cursor.length_rest_advance_lt (by omega) h
  · exact Cursor.length_rest_advance_lt (by omega) h

theorem length_rest_scanJoin_lt {cur : Cursor} (h : cur.rest ≠ []) :
    (scanJoin cur).next.rest.length < cur.rest.length := by
  have := List.length_pos_iff.mpr h
  unfold scanJoin
  simp only
  split <;> split <;> simp <;> omega

theorem length_rest_scanHere_lt {cur : Cursor} (h : cur.rest ≠ []) :
    (scanHere cur).next.rest.length < cur.rest.length := by
  have hpos := List.length_pos_iff.mpr h
  unfold scanHere
  split
  · contradiction
  · split
    · exact Cursor.length_rest_advance_lt (by omega) h
    split
    · have := Cursor.length_rest_skipWhile_le (· != '\n') (cur.advance 1)
      simp at this ⊢
      omega
    split
    · exact length_rest_scanJoin_lt h
    split
    · unfold scanString
      refine Nat.lt_of_le_of_lt (length_rest_scanBody_le _ _ _) ?_
      exact Cursor.length_rest_advance_lt (by split <;> omega) h
    split
    · exact length_rest_scanNumber_lt h
    split
    · exact Cursor.length_rest_advance_lt (by omega) h
    · unfold scanOperator
      split <;> exact Cursor.length_rest_advance_lt (by omega) h

theorem length_rest_scan_lt {cur : Cursor} (h : cur.rest ≠ []) :
    (scan cur).2.next.rest.length < cur.rest.length := by
  unfold scan
  simp only
  by_cases hs : (cur.skipWhile isSpace).rest = []
  · have hpos := List.length_pos_iff.mpr h
    simp [scanHere, hs]
    omega
  · exact Nat.lt_of_lt_of_le (length_rest_scanHere_lt hs) (Cursor.length_rest_skipWhile_le _ _)

end ViewSync
