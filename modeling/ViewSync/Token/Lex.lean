import ViewSync.Token.Scan

/-!
# ViewSync.Token.Lex

The token list of a view source. Lexemes come from `scan`; this module adds the layout. A line that is
indented wider than the one before opens a block and puts an `indent` in front of itself; a line that
returns to the width of an outer block closes the blocks in between with one `dedent` each. Blank lines,
comment lines and lines inside brackets take no part. After twenty faults the rest is left unread.
-/

namespace ViewSync

/-! ## Widths -/

/-- The width to which a tab stop advances. -/
def tabStop (width : Nat) : Nat :=
  (width / 8 + 1) * 8

/-- Characters that indent a line. -/
def isIndentation (c : Char) : Bool :=
  c == ' ' || c == '\t' || c == '\x0c'

/-- The width of the white space at the start of a line; a form feed starts again at zero. -/
def indentWidth (blanks : List Char) : Nat :=
  blanks.foldl (fun width c =>
    if c == ' ' then width + 1 else if c == '\t' then tabStop width else 0) 0

/-- Whether a line has nothing on it but, perhaps, a comment. The text is what follows its white
space. -/
def isBlankRest : List Char → Bool
  | [] => true
  | '\r' :: '\n' :: _ => true
  | c :: _ => c == '\n' || c == '#'

/-! ## State -/

/-- What has been read of a source. -/
structure Lexer where
  cursor : Cursor
  /-- The tokens so far, newest first. -/
  tokens : List Token
  /-- The widths of the open blocks, innermost first; the outermost level has width zero and is not
  listed. -/
  widths : List Nat
  /-- The number of open brackets; inside brackets there is no layout. -/
  depth : Nat
  /-- The next line is still to be measured. -/
  atLineStart : Bool
  /-- The faults so far, newest first. -/
  faults : List (Fault LexError)

namespace Lexer

/-- Before the first character. -/
def start (text : String) : Lexer :=
  ⟨Cursor.start text, [], [], 0, true, []⟩

/-- The width of the innermost open block. -/
def width (lx : Lexer) : Nat :=
  lx.widths.headD 0

/-- Adds a token. -/
def push (lx : Lexer) (kind : TokenKind) (span : Span) : Lexer :=
  { lx with tokens := ⟨kind, span⟩ :: lx.tokens }

/-- Whether a logical line has been started and not ended. -/
def inLine (lx : Lexer) : Bool :=
  match lx.tokens with
  | [] => false
  | token :: _ => token.kind != .newline

/-- The span of the place where the lexer stands. -/
def here (lx : Lexer) : Span :=
  .point lx.cursor.pos

/-! ## Layout -/

/-- The blocks that a line of the given width closes, and those that stay open. -/
def splitWidths (width : Nat) (widths : List Nat) : List Nat × List Nat :=
  (widths.takeWhile (width < ·), widths.dropWhile (width < ·))

/-- Compares the width of a line with the open blocks. A line that fits no open block is a fault, and
opens a block of its own. -/
def layout (lx : Lexer) (width : Nat) : Lexer :=
  if lx.width < width then
    { lx.push .indent lx.here with widths := width :: lx.widths }
  else
    let (closed, opened) := splitWidths width lx.widths
    let lx' := { closed.foldl (fun acc _ => acc.push .dedent acc.here) lx with widths := opened }
    if lx'.width = width then lx'
    else { lx' with
      widths := width :: opened
      faults := ⟨.unmatchedIndent, lx.here⟩ :: lx'.faults }

/-- Measures the next line, unless it is blank. -/
def measure (lx : Lexer) : Lexer :=
  let blanks := lx.cursor.rest.takeWhile isIndentation
  let lx := { lx with cursor := lx.cursor.advance blanks.length, atLineStart := false }
  if isBlankRest lx.cursor.rest then lx else lx.layout (indentWidth blanks)

/-- The end of a line, which ends a logical line unless brackets are open. -/
def endLine (lx : Lexer) (span : Span) : Lexer :=
  if 0 < lx.depth then lx
  else { (if lx.inLine then lx.push .newline span else lx) with atLineStart := true }

/-- The number of open brackets after a token. -/
def depthAfter (depth : Nat) : TokenKind → Nat
  | .symbol .leftParen => depth + 1
  | .symbol .leftBracket => depth + 1
  | .symbol .leftBrace => depth + 1
  | .symbol .rightParen => depth - 1
  | .symbol .rightBracket => depth - 1
  | .symbol .rightBrace => depth - 1
  | _ => depth

/-- Takes over a lexeme that starts at `start`. -/
def accept (lx : Lexer) (start : Pos) (scanned : Scanned) : Lexer :=
  let span := scanned.next.spanFrom start
  let lx := { lx with cursor := scanned.next, faults := scanned.faults.reverse ++ lx.faults }
  match scanned.lexeme with
  | .trivia => lx
  | .lineEnd => lx.endLine span
  | .token kind => { lx.push kind span with depth := depthAfter lx.depth kind }

/-- Reads one lexeme. -/
def lexeme (lx : Lexer) : Lexer :=
  lx.accept (scan lx.cursor).1 (scan lx.cursor).2

/-! ## Runs -/

/-- One step: measures a line or reads a lexeme. -/
def step (lx : Lexer) : Lexer :=
  if lx.atLineStart then lx.measure else lx.lexeme

/-- Nothing is left to read, or too much was wrong. -/
def finished (lx : Lexer) : Bool :=
  lx.cursor.rest.isEmpty || maxDiagnostics ≤ lx.faults.length

/-- What is left to do: characters to read, and a line to measure. -/
def remaining (lx : Lexer) : Nat :=
  2 * lx.cursor.rest.length + lx.atLineStart.toNat

@[simp] theorem cursor_push (lx : Lexer) (kind : TokenKind) (span : Span) :
    (lx.push kind span).cursor = lx.cursor := rfl

@[simp] theorem atLineStart_push (lx : Lexer) (kind : TokenKind) (span : Span) :
    (lx.push kind span).atLineStart = lx.atLineStart := rfl

/-- Closing blocks puts as many tokens in front. -/
theorem foldl_dedent (closed : List Nat) (lx : Lexer) :
    closed.foldl (fun acc _ => acc.push .dedent acc.here) lx =
      { lx with tokens := List.replicate closed.length ⟨.dedent, lx.here⟩ ++ lx.tokens } := by
  induction closed generalizing lx with
  | nil => rfl
  | cons _ closed ih =>
    rw [List.foldl_cons, ih, List.length_cons, List.replicate_succ', List.append_assoc]
    rfl

theorem cursor_layout (lx : Lexer) (width : Nat) :
    (lx.layout width).cursor = lx.cursor ∧ (lx.layout width).atLineStart = lx.atLineStart := by
  unfold layout
  split
  · simp
  · simp only
    split <;> simp [foldl_dedent]

theorem remaining_measure_lt {lx : Lexer} (h : lx.atLineStart = true) :
    lx.measure.remaining < lx.remaining := by
  unfold measure remaining
  simp only
  split <;>
    simp only [cursor_layout, Cursor.rest_advance, List.length_drop, h, Bool.toNat_true,
      Bool.toNat_false] <;>
    omega

theorem cursor_endLine (lx : Lexer) (span : Span) :
    (lx.endLine span).cursor = lx.cursor := by
  unfold endLine
  split
  · rfl
  · simp only
    split <;> rfl

theorem cursor_accept (lx : Lexer) (start : Pos) (scanned : Scanned) :
    (lx.accept start scanned).cursor = scanned.next := by
  unfold accept
  simp only
  split
  · rfl
  · rw [cursor_endLine]
  · rfl

theorem remaining_lexeme_lt {lx : Lexer} (h : lx.cursor.rest ≠ []) (hs : lx.atLineStart = false) :
    lx.lexeme.remaining < lx.remaining := by
  have hlt := length_rest_scan_lt h
  have hle := Bool.toNat_le (lx.accept (scan lx.cursor).1 (scan lx.cursor).2).atLineStart
  simp only [lexeme, remaining, cursor_accept, hs, Bool.toNat_false]
  omega

theorem remaining_step_lt {lx : Lexer} (h : lx.finished = false) :
    lx.step.remaining < lx.remaining := by
  unfold step
  split
  · exact remaining_measure_lt ‹_›
  · refine remaining_lexeme_lt ?_ (by simp_all)
    intro hr
    simp [finished, hr] at h

/-- Steps until the lexer is finished. -/
def run (lx : Lexer) : Lexer :=
  if _h : lx.finished = true then lx else run lx.step
termination_by lx.remaining
decreasing_by exact remaining_step_lt (by simpa using _h)

theorem run_of_finished {lx : Lexer} (h : lx.finished = true) : lx.run = lx := by
  rw [run, dif_pos h]

theorem run_step {lx : Lexer} (h : lx.finished = false) : lx.run = lx.step.run := by
  rw [run, dif_neg (by simp [h])]

/-- Ends the last logical line and closes the open blocks. -/
def close (lx : Lexer) : Lexer :=
  let lx := if lx.inLine then lx.push .newline lx.here else lx
  let lx := lx.widths.foldl (fun acc _ => acc.push .dedent acc.here) lx
  lx.push .eof lx.here

theorem close_eq (lx : Lexer) :
    lx.close =
      { lx with
        tokens := ⟨.eof, lx.here⟩ :: (List.replicate lx.widths.length ⟨.dedent, lx.here⟩ ++
          ((if lx.inLine then [⟨.newline, lx.here⟩] else []) ++ lx.tokens)) } := by
  unfold close
  simp only [foldl_dedent]
  cases lx.inLine <;> rfl

end Lexer

/-- The tokens of a source, always with `eof` as the last one, and the faults in it. -/
structure Lexed where
  tokens : List Token
  faults : List (Fault LexError)

/-- The tokens and the faults of a source text. -/
def lex (text : String) : Lexed :=
  let lx := (Lexer.start text).run.close
  ⟨lx.tokens.reverse, lx.faults.reverse⟩

end ViewSync
