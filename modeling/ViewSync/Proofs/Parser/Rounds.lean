import ViewSync.Parser.Statement
import ViewSync.Proofs.Parser.Progress

/-!
# ViewSync.Proofs.Parser.Rounds

The rounds of the loops of the grammar, by name: those of lists, operators and suffixes in expressions, those that skip
tokens, and those of the two loops over statements, of an indented block and of a whole source.
-/

namespace ViewSync.Parser

variable {α : Type}

/-! ## lists -/

/-- A round of `separated`. -/
def separatedStep (stop : TokenKind) (item : Parser α) (acc : List α) : Parser (List α ⊕ List α) := do
  if (← check stop) || (← atEnd) then return .inr acc.reverse
  let a ← item
  if ← eat (.symbol .comma) then return .inl (a :: acc)
  else return .inr (a :: acc).reverse

/-- A round of `moreItems`. -/
def moreItemsStep (stop : TokenKind → Bool) (item : Parser Expr) (acc : List Expr) :
    Parser (List Expr ⊕ List Expr) := do
  if ← eat (.symbol .comma) then
    if stop (← kind) then return .inr acc.reverse
    let e ← item
    return .inl (e :: acc)
  else return .inr acc.reverse

/-! ## expressions -/

/-- A round of `leftGrouped`. -/
def leftStep (op? : TokenKind → Option BinaryOp) (operand : Parser Expr) (left : Expr) : Parser (Expr ⊕ Expr) := do
  match op? (← kind) with
  | none => return .inr left
  | some op =>
    let _ ← advance
    let right ← operand
    return .inl (binary left op right)

/-- A round of `comparison`. -/
def compareStep (sub : Sub) (acc : List (CompareOp × Expr)) :
    Parser (List (CompareOp × Expr) ⊕ List (CompareOp × Expr)) := do
  match compareOp? (← kind) (← second) with
  | none => return .inr acc.reverse
  | some (op, both) =>
    let _ ← advance
    if both then let _ ← advance
    let right ← bitOr sub
    return .inl ((op, right) :: acc)

/-- A round of `strings`. -/
def stringsStep (text : String) : Parser (String ⊕ String) := do
  match ← kind with
  | .str part =>
    let _ ← advance
    return .inl (text ++ part)
  | _ => return .inr text

/-- A round of `suffixed`. -/
def suffixStep (sub : Sub) (value : Expr) : Parser (Expr ⊕ Expr) := do
  match ← kind with
  | .symbol .dot =>
    let _ ← advance
    let attr ← identifier
    return .inl (.attribute (value.span.merge attr.span) value attr)
  | .symbol .leftBracket =>
    let _ ← advance
    let index ← subscript sub
    let close ← expect (.symbol .rightBracket)
    return .inl (.subscript (value.span.merge close.span) value index)
  | .symbol .leftParen =>
    let _ ← advance
    let args ← separated (.symbol .rightParen) (arg sub)
    let close ← expect (.symbol .rightParen)
    return .inl (.call (value.span.merge close.span) value args)
  | _ => return .inr value

/-- A round of the conditions of a comprehension. -/
def conditionStep (sub : Sub) (acc : List Expr) : Parser (List Expr ⊕ List Expr) := do
  if ← eat (.keyword .if_) then return .inl ((← sub .disjunction) :: acc)
  else return .inr acc.reverse

/-! ## lines -/

/-- A round of `assignedValues`. -/
def valueStep (acc : List Expr) : Parser (List Expr ⊕ List Expr) := do
  if ← eat (.symbol .eq) then return .inl ((← expressionList expressionAt) :: acc)
  else return .inr acc.reverse

/-- A round of the targets of a `del`. -/
def targetStep (acc : List Expr) : Parser (List Expr ⊕ List Expr) := do
  if ← eat (.symbol .comma) then return .inl ((← expressionAt .bitwise) :: acc)
  else return .inr acc.reverse

/-- A line with a decorator, if there is one. -/
def decoratorStep (acc : List Expr) : Parser (List Expr ⊕ List Expr) := do
  if ← eat (.symbol .at) then
    let e ← expression
    lineEnd
    return .inl (e :: acc)
  else return .inr acc.reverse

/-! ## skipping -/

/-- A round of `skipLine`. -/
def skipLineStep (span : Span) : Parser (Span ⊕ Span) := do
  if endsLine (← kind) then return .inr span
  let token ← advance
  return .inl token.span

/-- A token inside a block that is skipped. -/
def skipStep (depth : Nat) : Parser (Nat ⊕ Unit) := do
  match (← advance).kind with
  | .indent => return .inl (depth + 1)
  | .dedent => if depth ≤ 1 then return .inr () else return .inl (depth - 1)
  | .eof => return .inr ()
  | _ => return .inl depth

/-- A clause behind a `try`, if there is one. -/
def tryStep : Parser (Unit ⊕ Unit) := do
  if continuesTry (← kind) then
    let _ ← skipClause
    return .inl ()
  else return .inr ()

/-! ## statements -/

/-- A round of a block. -/
def blockStep (statement : Parser Stmt) (acc : List Stmt) : Parser (List Stmt ⊕ Block) := do
  if (← check .dedent) || (← atEnd) || (← tooManyFaults) then return .inr acc.reverse
  match ← recovered statement with
  | some stmt => return .inl (stmt :: acc)
  | none => return .inl acc

/-- A round of `module_`. -/
def moduleStep (acc : List Stmt) : Parser (List Stmt ⊕ List Stmt) := do
  if (← atEnd) || (← tooManyFaults) then return .inr acc.reverse
  match ← kind with
  | .newline =>
    let _ ← advance
    return .inl acc
  | .indent =>
    report .unexpectedIndent
    skipIndented
    return .inl acc
  | .dedent =>
    let _ ← advance
    return .inl acc
  | _ =>
    match ← recovered statement with
    | some stmt => return .inl (stmt :: acc)
    | none => return .inl acc

/-- A round in which a statement is ahead. -/
def statementStep (statement : Parser Stmt) (acc : List Stmt) : Parser (List Stmt ⊕ List Stmt) := do
  match ← recovered statement with
  | some stmt => return .inl (stmt :: acc)
  | none => return .inl acc

theorem indentedBlock_eq_loop (statement : Parser Stmt) : indentedBlock statement =
    (loop (blockStep statement) [] >>= fun body => eat .dedent >>= fun _ => pure body) := rfl

theorem module_eq_loop : module_ = (here >>= fun start => loop moduleStep [] >>= fun body => last >>= fun stop =>
    pure ⟨body, start.merge stop⟩) := rfl

theorem blockStep_apply (statement : Parser Stmt) (acc : List Stmt) (s : ParseState) : blockStep statement acc s =
    (if (s.peek.kind == .dedent || s.peek.kind == .eof || s.tooManyFaults) = true then pure (.inr acc.reverse)
      else statementStep statement acc) s := rfl

/-- The last statement of a block is in front of the end of the block, or of the source. -/
theorem peek_of_blockStep {statement : Parser Stmt} {acc body : List Stmt} {s t : ParseState}
    (hdone : blockStep statement acc s = .done (.inr body) t) :
    t.peek.kind = .dedent ∨ t.peek.kind = .eof ∨ t.tooManyFaults = true := by
  rw [blockStep_apply] at hdone
  split at hdone
  · next hends =>
    cases hdone
    simpa [or_assoc] using hends
  · rw [statementStep, bind_apply] at hdone
    cases hfound : recovered statement s with
    | done found u =>
        rw [hfound] at hdone
        cases found <;> cases hdone
    | failed u =>
        rw [hfound] at hdone
        cases hdone
    | exhausted =>
        rw [hfound] at hdone
        cases hdone

/-- The end of an empty line between the statements of a source is skipped. -/
theorem moduleStep_newline {s : ParseState} (hkind : s.peek.kind = .newline) (hs : s.faults = []) (acc : List Stmt) :
    moduleStep acc s = .done (.inl acc) s.advance := by
  have hfew : s.tooManyFaults = false := by simp [ParseState.tooManyFaults, hs, maxDiagnostics]
  have hgoes : ¬ (TokenKind.newline == TokenKind.eof || false) = true := by decide
  unfold moduleStep
  simp only [bind_apply, atEnd, check, Parser.tooManyFaults, hkind, hfew]
  rw [if_neg hgoes, bind_apply]
  simp only [Parser.kind, hkind]
  rfl

end ViewSync.Parser
