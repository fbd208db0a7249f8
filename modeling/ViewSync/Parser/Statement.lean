import ViewSync.Parser.Expression

/-!
# ViewSync.Parser.Statement

The grammar of statements and whole sources. A statement that fails is skipped together with the block
that hangs on it, and reading goes on behind it; after twenty faults it stops. A tree is only given for a
source without faults.
-/

namespace ViewSync.Parser

/-! ## Simple statements -/

/-- The values of a chain of assignments, from its first equals sign. -/
def assignedValues : Parser (List Expr) :=
  loop (fun (acc : List Expr) => do
    if ← eat (.symbol .eq) then return .inl ((← expressionList expressionAt) :: acc)
    else return .inr acc.reverse) []

/-- An assignment to `first`, an augmented one, or `first` itself as a statement; `span` is given the
start and closes the node. -/
def assignment (start : Span) : Parser Stmt := do
  let first ← expressionList expressionAt
  let values ← assignedValues
  match values.getLast? with
  | some value =>
    return .assign (start.merge (← last)) (first :: values.dropLast) value
  | none =>
    match ← kind with
    | .augAssign op =>
      let _ ← advance
      let value ← expressionList expressionAt
      return .augAssign (start.merge (← last)) first op value
    | _ => return .expr (start.merge (← last)) first

/-- The targets of a `del`. -/
def deleteTargets : Parser (List Expr) := do
  let first ← expressionAt .bitwise
  let others ← loop (fun (acc : List Expr) => do
    if ← eat (.symbol .comma) then return .inl ((← expressionAt .bitwise) :: acc)
    else return .inr acc.reverse) []
  return first :: others

/-- A statement on one logical line, without the end of the line. -/
def simpleBody : Parser Stmt := do
  let start ← here
  match ← kind with
  | .keyword .pass =>
    let _ ← advance
    return .pass (start.merge (← last))
  | .keyword .return_ =>
    let _ ← advance
    if endsLine (← kind) then return .return_ (start.merge (← last)) none
    else
      let value ← expressionList expressionAt
      return .return_ (start.merge (← last)) (some value)
  | .keyword .del =>
    let _ ← advance
    let targets ← deleteTargets
    return .delete (start.merge (← last)) targets
  | _ => assignment start

/-- A statement on one logical line. -/
def simple : Parser Stmt := do
  let stmt ← simpleBody
  lineEnd
  return stmt

/-! ## Refused statements -/

/-- Whether a clause of a `try` follows. -/
def continuesTry : TokenKind → Bool
  | .keyword .else_ => true
  | .reserved word => word == "except" || word == "finally"
  | _ => false

/-- Skips a statement that is recognized and refused, with its block and, for a `try`, with the clauses
behind it. Its span ends with the first line. -/
def refused (stmt : RefusedStmt) : Parser Stmt := do
  let start ← here
  let stop ← skipClause
  if stmt == .try_ then
    loop (fun (_ : Unit) => do
      if continuesTry (← kind) then
        let _ ← skipClause
        return .inl ()
      else return .inr ()) ()
  return .refused (start.merge stop) stmt

/-- Goes on behind a statement that failed. -/
def synchronize : Parser Unit := do
  let _ ← skipClause

/-! ## Blocks -/

section

variable (statement : Parser Stmt)

/-- A statement, or nothing if it failed and was skipped. -/
def recovered : Parser (Option Stmt) := do
  match ← attempt statement with
  | some stmt => return some stmt
  | none =>
    synchronize
    return none

/-- The statements of an indented block and its end. -/
def indentedBlock : Parser Block := do
  let body ← loop (fun (acc : List Stmt) => do
    if (← check .dedent) || (← atEnd) || (← tooManyFaults) then return .inr acc.reverse
    match ← recovered statement with
    | some stmt => return .inl (stmt :: acc)
    | none => return .inl acc) []
  let _ ← eat .dedent
  return body

/-- The block behind a colon: one statement on the same line, or an indented block. -/
def block : Parser Block := do
  let _ ← expect (.symbol .colon)
  if ← eat .newline then
    if ← eat .indent then indentedBlock statement
    else fail .expectedBlock
  else return [← simple]

/-! ## Compound statements -/

/-- A function, from its `def`. -/
def function (decorators : List Expr) : Parser Stmt := do
  let start ← here
  let _ ← advance
  let name ← identifier
  let _ ← expect (.symbol .leftParen)
  let ps ← params expressionAt (.symbol .rightParen)
  let _ ← expect (.symbol .rightParen)
  if ← eat (.symbol .arrow) then let _ ← expression
  let body ← block statement
  return .function (.mk (start.merge (← last)) name ps decorators body)

/-- The bases of a class, if there is a list of them. -/
def bases : Parser (List Expr) := do
  if ← eat (.symbol .leftParen) then
    let bs ← separated (.symbol .rightParen) expression
    let _ ← expect (.symbol .rightParen)
    return bs
  else return []

/-- A class, from its `class`. -/
def classDef (decorators : List Expr) : Parser Stmt := do
  let start ← here
  let _ ← advance
  let name ← identifier
  let bs ← bases
  let body ← block statement
  return .class_ (.mk (start.merge (← last)) name bs decorators body)

/-- Decorators, one a line, and what they decorate. -/
def decorated : Parser Stmt := do
  let decorators ← loop (fun (acc : List Expr) => do
    if ← eat (.symbol .at) then
      let e ← expression
      lineEnd
      return .inl (e :: acc)
    else return .inr acc.reverse) []
  match ← kind with
  | .keyword .def_ => function statement decorators
  | .keyword .class_ => classDef statement decorators
  | found => fail (.expectedDefinition found)

/-- An `if`, from its word or from an `elif`, with all that follows it. -/
def ifChainUpTo : Nat → Parser IfChain
  | 0 => fun _ => .exhausted
  | bound + 1 => do
    let start ← here
    let _ ← advance
    let condition ← expression
    let body ← block statement
    let orelse ← match ← kind with
      | .keyword .elif => do
        let chain ← ifChainUpTo bound
        pure (.elif chain)
      | .keyword .else_ => do
        let _ ← advance
        pure (.block (← block statement))
      | _ => pure .nothing
    return .mk (start.merge (← last)) condition body orelse

/-- The block behind the `else` of a loop, if there is one. -/
def loopElse : Parser (Option Block) := do
  if ← eat (.keyword .else_) then return some (← block statement)
  else return none

/-- A `for`. -/
def forLoop : Parser Stmt := do
  let start ← here
  let _ ← advance
  let target ← targetList expressionAt
  let _ ← expect (.keyword .in_)
  let source ← expressionList expressionAt
  let body ← block statement
  let orelse ← loopElse statement
  return .for_ (start.merge (← last)) target source body orelse

/-- A `while`. -/
def whileLoop : Parser Stmt := do
  let start ← here
  let _ ← advance
  let condition ← expression
  let body ← block statement
  let orelse ← loopElse statement
  return .while_ (start.merge (← last)) condition body orelse

/-- Any statement. -/
def statementWith : Parser Stmt := do
  match ← kind with
  | .keyword .def_ => function statement []
  | .keyword .class_ => classDef statement []
  | .symbol .at => decorated statement
  | .keyword .if_ => return .if_ (← bounded (ifChainUpTo statement))
  | .keyword .for_ => forLoop statement
  | .keyword .while_ => whileLoop statement
  | .reserved word =>
    match RefusedStmt.ofWord? word with
    | some stmt => refused stmt
    | none => if word == "yield" || word == "await" then simple else fail (.unexpectedWord word)
  | _ => simple

end

/-- Any statement whose blocks nest at most `bound` deep. -/
def statementUpTo : Nat → Parser Stmt
  | 0 => fun _ => .exhausted
  | bound + 1 => statementWith (statementUpTo bound)

/-- Any statement. -/
def statement : Parser Stmt := bounded statementUpTo

/-! ## Sources -/

/-- The statements of a whole source. -/
def module_ : Parser Module := do
  let start ← here
  let body ← loop (fun (acc : List Stmt) => do
    if (← atEnd) || (← tooManyFaults) then return .inr acc.reverse
    match ← kind with
    | .newline =>
      let _ ← advance
      return .inl acc
    | .indent =>
      report .unexpectedIndent
      skipIndented
      return .inl acc
    | .dedent =>
      let _ ← advance
      return .inl acc
    | _ =>
      match ← recovered statement with
      | some stmt => return .inl (stmt :: acc)
      | none => return .inl acc) []
  return ⟨body, start.merge (← last)⟩

end ViewSync.Parser

namespace ViewSync

/-- The tree of a source, if there is no fault in it, and the faults. -/
structure Parsed where
  module? : Option Module
  faults : List (Fault ParseError)

/-- Parses a list of tokens. -/
def parse (tokens : List Token) : Parsed :=
  match Parser.module_ (.start tokens) with
  | .done m s => ⟨if s.faults.isEmpty then some m else none, s.faults.reverse⟩
  | .failed s => ⟨none, s.faults.reverse⟩
  | .exhausted => ⟨none, []⟩

end ViewSync
