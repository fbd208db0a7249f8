import ViewSync.Proofs.Bytes.Utf8
import ViewSync.Proofs.Token.Alike
import ViewSync.Token.Lex

/-!
# ViewSync.Proofs.Bytes.Lexer

The lexer on single bytes. It looks at one byte at a time, as the character of its number, and knows nothing of
characters beyond one byte but that the bytes behind the first one belong to it. Names, the contents of strings and
characters that start no token are stretches of bytes first, and only then read as texts, with replacement characters
for bytes that are none (`lossy`): each such stretch is noted. Noted as well is, for each token, from which byte up to
which one it was read.
-/

namespace ViewSync

/-- The position behind a byte. -/
def Pos.afterByte (p : Pos) (b : UInt8) : Pos :=
  if b = 0x0A then ⟨p.line + 1, 1⟩ else ⟨p.line, p.col + 1⟩

/-! ## cursors -/

/-- The bytes ahead and the position where they start. -/
structure ByteCursor where
  rest : List UInt8
  pos : Pos

namespace ByteCursor

/-- The bytes ahead as characters. -/
def chars (cur : ByteCursor) : List Char :=
  byteChars cur.rest

/-- The cursor behind the next `n` bytes. -/
def advance : Nat → ByteCursor → ByteCursor
  | 0, cur => cur
  | n + 1, cur =>
    match cur.rest with
    | [] => cur
    | b :: bs => advance n ⟨bs, cur.pos.afterByte b⟩

/-- The cursor at the first byte ahead that does not satisfy `p`. -/
def skipWhile (p : Char → Bool) (cur : ByteCursor) : ByteCursor :=
  cur.advance (cur.chars.takeWhile p).length

/-- The position alone. -/
def place (cur : ByteCursor) : Cursor :=
  ⟨[], cur.pos⟩

@[simp] theorem rest_advance (n : Nat) (cur : ByteCursor) : (cur.advance n).rest = cur.rest.drop n := by
  induction n generalizing cur with
  | zero => rfl
  | succ n ih =>
      rw [advance]
      split
      · next h => simp [h]
      · next b bs h => simp [h, ih]

end ByteCursor

/-! ## lexemes -/

/-- A lexeme, the cursor behind it, what was wrong with it, and which bytes were read as texts. -/
structure ByteScanned where
  lexeme : Lexeme
  next : ByteCursor
  faults : List (Fault LexError)
  texts : List (List UInt8)

/-- The bytes that an escape sequence stands for, the cursor behind it, and what was wrong with it. -/
structure ByteEscaped where
  bytes : List UInt8
  next : ByteCursor
  faults : List (Fault LexError)

/-- The bytes of a string, the cursor behind its closing quotes, and what was wrong with it. -/
structure ByteBody where
  content : List UInt8
  next : ByteCursor
  faults : List (Fault LexError)
  closed : Bool

/-- The body puts more content and more faults in front of what follows. -/
def ByteBody.after (front : List UInt8) (faults : List (Fault LexError)) (body : ByteBody) : ByteBody :=
  ⟨front ++ body.content, body.next, faults ++ body.faults, body.closed⟩

namespace ByteCursor

/-- A number literal. The cursor stands at its first byte. -/
def scanNumber (cur : ByteCursor) : ByteScanned :=
  match hexRun? cur.chars with
  | some run =>
    let digits := withoutSeparators run
    let next := cur.advance (2 + run.length)
    if !digits.isEmpty && Text.ofHexDigits digits ≤ Decimal.maxInt64 then
      ⟨.token (.int (Text.ofHexDigits digits)), next, [], []⟩
    else ⟨.token (.int 0), next, [⟨.badHex (String.ofList digits), next.place.spanFrom cur.pos⟩], []⟩
  | none =>
    let (kind, size) := decimalNumber cur.chars
    ⟨.token kind, cur.advance (max size 1), [], []⟩

/-- A name or a word of the language. The cursor stands at its first byte. -/
def scanName (cur : ByteCursor) : ByteScanned :=
  let word := cur.rest.take (cur.chars.takeWhile isNamePart).length
  ⟨.token (.ofWord (lossy word)), cur.advance (max word.length 1), [], [word]⟩

/-- An escape with a fixed number of hexadecimal digits. The cursor stands behind the kind. -/
def scanNumberedEscape (start : Pos) (kind : Char) (width : Nat) (cur : ByteCursor) : ByteEscaped :=
  let digits := (cur.chars.take width).takeWhile Text.isHexDigit
  let next := cur.advance digits.length
  let value := Text.ofHexDigits digits
  if digits.length = width ∧ value.isValidChar then ⟨String.utf8EncodeChar (Char.ofNat value), next, []⟩
  else ⟨[], next, [⟨.badEscape kind, next.place.spanFrom start⟩]⟩

/-- An escape sequence. The cursor stands behind the backslash, which is at `start`. An unknown escape keeps its
backslash and the one byte behind it. -/
def scanEscape (start : Pos) (cur : ByteCursor) : ByteEscaped :=
  match cur.rest with
  | [] => ⟨[], cur, []⟩
  | b :: _ =>
    let next := cur.advance 1
    match Char.ofUInt8 b with
    | '\n' => ⟨[], next, []⟩
    | 'n' => ⟨[0x0A], next, []⟩
    | 't' => ⟨[0x09], next, []⟩
    | 'r' => ⟨[0x0D], next, []⟩
    | '0' => ⟨[0x00], next, []⟩
    | '\\' => ⟨[0x5C], next, []⟩
    | '\'' => ⟨[0x27], next, []⟩
    | '"' => ⟨[0x22], next, []⟩
    | 'x' => next.scanNumberedEscape start 'x' 2
    | 'u' => next.scanNumberedEscape start 'u' 4
    | _ => ⟨[0x5C, b], next, []⟩

theorem length_rest_scanEscape_le (start : Pos) (cur : ByteCursor) :
    (cur.scanEscape start).next.rest.length ≤ cur.rest.length := by
  unfold scanEscape
  split
  · simp
  · simp only
    split <;> simp [scanNumberedEscape] <;> split <;> simp

/-- The body of a string up to its closing quotes, byte by byte. -/
def scanBody (quote : Char) (triple : Bool) (cur : ByteCursor) : ByteBody :=
  match _h : cur.rest with
  | [] => ⟨[], cur, [], false⟩
  | b :: bs =>
    let c := Char.ofUInt8 b
    if c == '\n' && !triple then ⟨[], cur, [], false⟩
    else if c == quote && !triple then ⟨[], cur.advance 1, [], true⟩
    else if c == quote && (byteChars bs).take 2 == [quote, quote] then ⟨[], cur.advance 3, [], true⟩
    else if c == '\\' then
      let escape := (cur.advance 1).scanEscape cur.pos
      (scanBody quote triple escape.next).after escape.bytes escape.faults
    else (scanBody quote triple (cur.advance 1)).after [b] []
termination_by cur.rest.length
decreasing_by
  · have := length_rest_scanEscape_le cur.pos (cur.advance 1)
    simp [_h] at this ⊢
    omega
  · simp [_h]

/-- A string literal. The cursor stands at its first quote. -/
def scanString (quote : Char) (cur : ByteCursor) : ByteScanned :=
  let triple := (cur.chars.drop 1).take 2 == [quote, quote]
  let body := (cur.advance (if triple then 3 else 1)).scanBody quote triple
  ⟨.token (.str (lossy body.content)), body.next,
    body.faults ++ if body.closed then [] else [⟨.unterminatedString, body.next.place.spanFrom cur.pos⟩],
    [body.content]⟩

/-- Something that starts no token: the bytes up to the next one that may start a character. The fault names the
character that they are read as. -/
def scanUnexpected (cur : ByteCursor) : ByteScanned :=
  let size := 1 + ((cur.rest.drop 1).takeWhile isContinuation).length
  let next := cur.advance size
  let refused := cur.rest.take size
  let shown := (lossy refused).toList.headD '\uFFFD'
  ⟨.trivia, next, [⟨.unexpected shown, next.place.spanFrom cur.pos⟩], [refused]⟩

/-- An operator, or a byte that starts none. Of an exclamation mark and a semicolon it is said what to write. -/
def scanOperator (c : Char) (cur : ByteCursor) : ByteScanned :=
  match operator? cur.chars with
  | some (kind, size) => ⟨.token kind, cur.advance (max size 1), [], []⟩
  | none =>
    if c == '!' || c == ';' then
      let next := cur.advance 1
      ⟨.trivia, next, [⟨.unexpected c, next.place.spanFrom cur.pos⟩], []⟩
    else cur.scanUnexpected

/-- Behind the return that may stand at the end of a line. -/
def behindReturn (cur : ByteCursor) : ByteCursor :=
  if cur.chars.head? = some '\r' then cur.advance 1 else cur

/-- A backslash outside a string. -/
def scanJoin (cur : ByteCursor) : ByteScanned :=
  let behind := (cur.advance 1).behindReturn
  if behind.chars.head? = some '\n' then ⟨.trivia, behind.advance 1, [], []⟩
  else ⟨.trivia, behind, [⟨.strayBackslash, behind.place.spanFrom cur.pos⟩], []⟩

/-- What stands at a cursor with no white space ahead. -/
def scanHere (cur : ByteCursor) : ByteScanned :=
  match cur.chars with
  | [] => ⟨.trivia, cur, [], []⟩
  | c :: _ =>
    if c == '\n' then ⟨.lineEnd, cur.advance 1, [], []⟩
    else if c == '#' then ⟨.trivia, (cur.advance 1).skipWhile (· != '\n'), [], []⟩
    else if c == '\\' then cur.scanJoin
    else if c == '"' || c == '\'' then cur.scanString c
    else if startsNumber cur.chars then cur.scanNumber
    else if isNameStart c then cur.scanName
    else cur.scanOperator c

end ByteCursor

/-! ## runs -/

/-- What has been read of the bytes of a source: the cursor, and what the layout makes of it. Of the cursor of `lexer`
only the position is used. Beside it stand which bytes were read as texts and, for each token, the numbers of the bytes
in front of it and up to its end, newest first. -/
structure ByteLexer where
  size : Nat
  cursor : ByteCursor
  lexer : Lexer
  texts : List (List UInt8)
  ranges : List (Nat × Nat)

namespace ByteLexer

/-- Before the first byte. -/
def start (raw : List UInt8) : ByteLexer :=
  ⟨raw.length, ⟨raw, ⟨1, 1⟩⟩, ⟨⟨[], ⟨1, 1⟩⟩, [], [], 0, true, []⟩, [], []⟩

/-- The number of bytes in front of a cursor. -/
def offset (bl : ByteLexer) (cur : ByteCursor) : Nat :=
  bl.size - cur.rest.length

/-- Goes on from `next`: the tokens that `lexer` has more were read between `first` and `next`. -/
def goOn (bl : ByteLexer) (first next : ByteCursor) (lexer : Lexer) (texts : List (List UInt8)) : ByteLexer where
  size := bl.size
  cursor := next
  lexer := lexer
  texts := texts ++ bl.texts
  ranges := List.replicate (lexer.tokens.length - bl.lexer.tokens.length) (bl.offset first, bl.offset next) ++ bl.ranges

/-- Measures the next line, unless it is blank. -/
def measure (bl : ByteLexer) : ByteLexer :=
  let blanks := bl.cursor.chars.takeWhile isIndentation
  let next := bl.cursor.advance blanks.length
  let lexer := { bl.lexer with cursor := next.place, atLineStart := false }
  bl.goOn next next (if isBlankRest next.chars then lexer else lexer.layout (indentWidth blanks)) []

/-- Reads one lexeme. -/
def lexeme (bl : ByteLexer) : ByteLexer :=
  let first := bl.cursor.skipWhile isSpace
  let found := first.scanHere
  bl.goOn first found.next (bl.lexer.accept first.pos ⟨found.lexeme, found.next.place, found.faults⟩) found.texts

/-- One step: measures a line or reads a lexeme. -/
def step (bl : ByteLexer) : ByteLexer :=
  if bl.lexer.atLineStart then bl.measure else bl.lexeme

/-- Nothing is left to read, or too much was wrong. -/
def finished (bl : ByteLexer) : Bool :=
  bl.cursor.rest.isEmpty || maxDiagnostics ≤ bl.lexer.faults.length

/-- Steps until the lexer is finished, or for a number of steps. -/
def runUpTo : Nat → ByteLexer → ByteLexer
  | 0, bl => bl
  | bound + 1, bl => if bl.finished then bl else runUpTo bound bl.step

/-- Steps until the lexer is finished. A step that does not use up a byte measures a line. -/
def run (bl : ByteLexer) : ByteLexer :=
  bl.runUpTo (2 * bl.cursor.rest.length + 1)

/-- Ends the last logical line and closes the open blocks. -/
def close (bl : ByteLexer) : ByteLexer :=
  bl.goOn bl.cursor bl.cursor bl.lexer.close []

end ByteLexer

/-- The tokens of a source, with the bytes from which each was read, the faults, and what was read as texts. -/
structure ByteLexed where
  tokens : List Token
  ranges : List (Nat × Nat)
  faults : List (Fault LexError)
  texts : List (List UInt8)

/-- The tokens and the faults of the bytes of a source. -/
def lexBytes (raw : List UInt8) : ByteLexed :=
  let bl := (ByteLexer.start raw).run.close
  ⟨bl.lexer.tokens.reverse, bl.ranges.reverse, bl.lexer.faults.reverse, bl.texts.reverse⟩

end ViewSync
