import ViewSync.Parser.Error
import ViewSync.Tree.Basic

/-!
# ViewSync.Parser.Basic

Parsers of token lists. A parser moves through the tokens and notes the faults it finds. It ends with a
value, or it fails, and then the fault has been noted and reading goes on from the tokens left. Loops are
bounded by the number of tokens: a loop that goes round without consuming a token would end as
`exhausted`, which is kept apart from failure.
-/

namespace ViewSync

/-- Where a parser stands. -/
structure ParseState where
  /-- The tokens ahead. -/
  rest : List Token
  /-- What is ahead when no token is left. -/
  eof : Token
  /-- The span of the last consumed token that has text. -/
  last : Span
  /-- How many expressions are open. -/
  depth : Nat
  /-- The faults found, newest first. -/
  faults : List (Fault ParseError)

namespace ParseState

/-- Before the first of some tokens. -/
def start (tokens : List Token) : ParseState where
  rest := tokens
  eof := ⟨.eof, (tokens.getLast?.map (·.span)).getD .origin⟩
  last := .origin
  depth := 0
  faults := []

/-- The next token. -/
def peek (s : ParseState) : Token :=
  s.rest.headD s.eof

/-- The token after the next one. -/
def second (s : ParseState) : TokenKind :=
  match s.rest with
  | _ :: t :: _ => t.kind
  | _ => .eof

/-- The state behind the next token. -/
def advance (s : ParseState) : ParseState :=
  match s.rest with
  | [] => s
  | t :: ts => { s with rest := ts, last := if t.kind.isLayout then s.last else t.span }

/-- Notes a fault. -/
def note (s : ParseState) (cause : ParseError) (span : Span) : ParseState :=
  { s with faults := ⟨cause, span⟩ :: s.faults }

/-- So much is wrong that reading stops at the next statement. -/
def tooManyFaults (s : ParseState) : Bool :=
  maxDiagnostics ≤ s.faults.length

end ParseState

/-- How a parser ends. -/
inductive Outcome (α : Type) where
  | done (value : α) (state : ParseState)
  | failed (state : ParseState)
  | exhausted

/-- A parser of token lists. -/
def Parser (α : Type) : Type := ParseState → Outcome α

namespace Parser

variable {α β : Type}

instance : Monad Parser where
  pure a := fun s => .done a s
  bind p f := fun s =>
    match p s with
    | .done a s' => f a s'
    | .failed s' => .failed s'
    | .exhausted => .exhausted

/-! ## Single steps -/

/-- The next token, which stays ahead. -/
def peek : Parser Token := fun s => .done s.peek s

/-- The kind of the next token. -/
def kind : Parser TokenKind := fun s => .done s.peek.kind s

/-- The kind of the token after the next one. -/
def second : Parser TokenKind := fun s => .done s.second s

/-- The span of the next token. -/
def here : Parser Span := fun s => .done s.peek.span s

/-- The span of the last consumed token that has text. -/
def last : Parser Span := fun s => .done s.last s

/-- Consumes the next token. -/
def advance : Parser Token := fun s => .done s.peek s.advance

/-- Whether the next token is of the given kind. -/
def check (k : TokenKind) : Parser Bool := fun s => .done (s.peek.kind == k) s

/-- Consumes the next token if it is of the given kind. -/
def eat (k : TokenKind) : Parser Bool := fun s =>
  if s.peek.kind == k then .done true s.advance else .done false s

/-- Whether the tokens are at their end. -/
def atEnd : Parser Bool := check .eof

/-- Whether so much is wrong that reading stops. -/
def tooManyFaults : Parser Bool := fun s => .done s.tooManyFaults s

/-- Notes a fault at the next token and goes on. -/
def report (cause : ParseError) : Parser Unit := fun s => .done () (s.note cause s.peek.span)

/-- Notes a fault at the next token and fails. -/
def fail (cause : ParseError) : Parser α := fun s => .failed (s.note cause s.peek.span)

/-- Consumes a token of the given kind. -/
def expect (wanted : TokenKind) : Parser Token := fun s =>
  if s.peek.kind == wanted then .done s.peek s.advance
  else .failed (s.note (.expected wanted s.peek.kind) s.peek.span)

/-- Consumes a name. -/
def identifier : Parser Ident := fun s =>
  match s.peek.kind with
  | .identifier name => .done ⟨name, s.peek.span⟩ s.advance
  | found => .failed (s.note (.expectedIdentifier found) s.peek.span)

/-- The end of a logical line. The end of a block or of the source will do as well. -/
def lineEnd : Parser Unit := fun s =>
  match s.peek.kind with
  | .newline => .done () s.advance
  | .dedent => .done () s
  | .eof => .done () s
  | found => .done () (s.note (.expectedLineEnd found) s.peek.span)

/-- A parser whose failure is a value. -/
def attempt (p : Parser α) : Parser (Option α) := fun s =>
  match p s with
  | .done a s' => .done (some a) s'
  | .failed s' => .done none s'
  | .exhausted => .exhausted

/-! ## Loops -/

/-- Goes round at most `bound` times: a round gives the value of the next one or the value of the
loop. -/
def loopUpTo (step : α → Parser (α ⊕ β)) : Nat → α → Parser β
  | 0, _ => fun _ => .exhausted
  | bound + 1, a => fun s =>
    match step a s with
    | .done (.inl a') s' => loopUpTo step bound a' s'
    | .done (.inr b) s' => .done b s'
    | .failed s' => .failed s'
    | .exhausted => .exhausted

/-- Goes round until a round ends the loop. Every round but the last one is to consume a token. -/
def loop (step : α → Parser (α ⊕ β)) (a : α) : Parser β := fun s =>
  loopUpTo step (s.rest.length + 1) a s

/-- A recursive parser, given its body for every depth of recursion. Every level is to consume a token
before it descends. -/
def bounded (body : Nat → Parser α) : Parser α := fun s =>
  body (s.rest.length + 1) s

/-! ## Skipping -/

/-- Tokens that no line goes on over. -/
def endsLine : TokenKind → Bool
  | .newline => true
  | .dedent => true
  | .eof => true
  | _ => false

/-- Skips the rest of a line; gives the span of the last token skipped, or else that of the next one. -/
def skipLine : Parser Span := do
  let start ← here
  loop (fun span => do
    if endsLine (← kind) then return .inr span
    let token ← advance
    return .inl token.span) start

/-- Skips from an `indent` up to the `dedent` that belongs to it. -/
def skipIndented : Parser Unit :=
  loop (fun (depth : Nat) => do
    match (← advance).kind with
    | .indent => return .inl (depth + 1)
    | .dedent => if depth ≤ 1 then return .inr () else return .inl (depth - 1)
    | .eof => return .inr ()
    | _ => return .inl depth) 0

/-- Skips the rest of a logical line and the block that hangs on it; gives the span of the last token of
the line. -/
def skipClause : Parser Span := do
  let span ← skipLine
  let _ ← eat .newline
  if ← check .indent then skipIndented
  return span

end Parser

end ViewSync
