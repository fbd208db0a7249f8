import ViewSync.Parser.Basic
import ViewSync.Tree.Basic

/-!
# ViewSync.Parser.Expression

The grammar of expressions. From the weakest binding to the strongest: `lambda`; `a if c else b`; `or`;
`and`; `not`; comparisons, which chain; `|`; `^`; `&`; shifts; `+` and `-`; `*`, `/`, `//` and `%`; the
signs; `**`, which groups to the right; attributes, subscripts and calls. Binary operators but `**` group
to the left.

Each rule is a parser over `sub`, the parsers for what stands inside brackets and the like; `parseAt`
ties the rules together. At most 64 full expressions may be open at a time.
-/

namespace ViewSync.Parser

/-- The entry points by which expressions stand inside other expressions. -/
inductive Level where
  /-- Any expression. -/
  | full
  /-- No `lambda` and no `if` outside brackets. -/
  | disjunction
  /-- No comparison and nothing weaker outside brackets. -/
  | bitwise
deriving DecidableEq

/-- The parsers for inner expressions. -/
abbrev Sub := Level → Parser Expr

/-! ## Nodes -/

/-- A binary node that spans both operands. -/
def binary (left : Expr) (op : BinaryOp) (right : Expr) : Expr :=
  .binary (left.span.merge right.span) left op right

/-- A tuple without brackets of its own. -/
def bareTuple (first : Expr) (others : List Expr) : Expr :=
  .tuple (first.span.merge ((others.getLast?.map Expr.span).getD first.span)) (first :: others)

/-! ## Operators -/

def orOp : TokenKind → Option BinaryOp
  | .keyword .or => some .or
  | _ => none

def andOp : TokenKind → Option BinaryOp
  | .keyword .and => some .and
  | _ => none

def bitOrOp : TokenKind → Option BinaryOp
  | .symbol .pipe => some .bitOr
  | _ => none

def bitXorOp : TokenKind → Option BinaryOp
  | .symbol .caret => some .bitXor
  | _ => none

def bitAndOp : TokenKind → Option BinaryOp
  | .symbol .amp => some .bitAnd
  | _ => none

def shiftOp : TokenKind → Option BinaryOp
  | .symbol .shiftLeft => some .shiftLeft
  | .symbol .shiftRight => some .shiftRight
  | _ => none

def additiveOp : TokenKind → Option BinaryOp
  | .symbol .plus => some .add
  | .symbol .minus => some .sub
  | _ => none

def termOp : TokenKind → Option BinaryOp
  | .symbol .star => some .mul
  | .symbol .slash => some .div
  | .symbol .doubleSlash => some .floorDiv
  | .symbol .percent => some .mod
  | _ => none

def signOp : TokenKind → Option UnaryOp
  | .symbol .minus => some .neg
  | .symbol .plus => some .pos
  | .symbol .tilde => some .invert
  | _ => none

/-- The comparison that two tokens start with, and whether it takes both. -/
def compareOp? (first second : TokenKind) : Option (CompareOp × Bool) :=
  match first with
  | .symbol .eqEq => some (.eq, false)
  | .symbol .notEq => some (.notEq, false)
  | .symbol .less => some (.less, false)
  | .symbol .greater => some (.greater, false)
  | .symbol .lessEq => some (.lessEq, false)
  | .symbol .greaterEq => some (.greaterEq, false)
  | .keyword .in_ => some (.isIn, false)
  | .keyword .not => if second == .keyword .in_ then some (.notIn, true) else none
  | .keyword .is => if second == .keyword .not then some (.isNot, true) else some (.is, false)
  | _ => none

/-- Operands with operators between them, grouped to the left. -/
def leftGrouped (op? : TokenKind → Option BinaryOp) (operand : Parser Expr) : Parser Expr := do
  let first ← operand
  loop (fun left => do
    match op? (← kind) with
    | none => return .inr left
    | some op =>
      let _ ← advance
      let right ← operand
      return .inl (binary left op right)) first

/-! ## Lists -/

/-- Items with commas between them, up to `stop`; a comma may stand at the end. -/
def separated {α : Type} (stop : TokenKind) (item : Parser α) : Parser (List α) :=
  loop (fun (acc : List α) => do
    if (← check stop) || (← atEnd) then return .inr acc.reverse
    let a ← item
    if ← eat (.symbol .comma) then return .inl (a :: acc)
    else return .inr (a :: acc).reverse) []

/-- The items behind the first one; a comma in front of `stop` ends them. -/
def moreItems (stop : TokenKind → Bool) (item : Parser Expr) : Parser (List Expr) :=
  loop (fun (acc : List Expr) => do
    if ← eat (.symbol .comma) then
      if stop (← kind) then return .inr acc.reverse
      let e ← item
      return .inl (e :: acc)
    else return .inr acc.reverse) []

/-- What ends a list of expressions without brackets of its own. -/
def endsList : TokenKind → Bool
  | .newline => true
  | .dedent => true
  | .eof => true
  | .augAssign _ => true
  | .symbol .eq => true
  | .symbol .colon => true
  | .symbol .rightParen => true
  | .symbol .rightBracket => true
  | .symbol .rightBrace => true
  | _ => false

/-- One item, or with a comma a tuple. -/
def bareList (stop : TokenKind → Bool) (item : Parser Expr) : Parser Expr := do
  let first ← item
  if ← check (.symbol .comma) then
    return bareTuple first (← moreItems stop item)
  else return first

section

variable (sub : Sub)

/-- One expression, or a tuple without brackets. -/
def expressionList : Parser Expr :=
  bareList endsList (sub .full)

/-- The target of a loop: one, or a tuple of them, in front of `in`. -/
def targetList : Parser Expr :=
  bareList (· == .keyword .in_) (sub .bitwise)

/-- A parameter; an annotation is read and dropped. In front of a colon that ends the list there are
none. -/
def param (stop : TokenKind) : Parser Param := do
  let name ← identifier
  if stop != .symbol .colon then
    if ← eat (.symbol .colon) then let _ ← sub .full
  if ← eat (.symbol .eq) then
    let value ← sub .full
    return ⟨name, some value, name.span.merge value.span⟩
  else return ⟨name, none, name.span⟩

/-- The parameters in front of `stop`. -/
def params (stop : TokenKind) : Parser (List Param) :=
  separated stop (param sub stop)

/-- An argument of a call. -/
def arg : Parser Arg := do
  match ← kind with
  | .symbol .star =>
    let _ ← advance
    return .starred (← sub .full)
  | .symbol .doubleStar =>
    let _ ← advance
    return .doubleStarred (← sub .full)
  | .identifier _ =>
    if (← second) == .symbol .eq then
      let name ← identifier
      let _ ← advance
      return .keyword name (← sub .full)
    else return .positional (← sub .full)
  | _ => return .positional (← sub .full)

/-! ## Atoms -/

/-- Adjacent string literals are one text. -/
def strings : Parser Expr := do
  let start ← here
  let text ← loop (fun (text : String) => do
    match ← kind with
    | .str part =>
      let _ ← advance
      return .inl (text ++ part)
    | _ => return .inr text) ""
  return .str (start.merge (← last)) text

/-- An expression in parentheses, or a tuple. -/
def parenthesized : Parser Expr := do
  let start := (← advance).span
  if ← check (.symbol .rightParen) then
    let close ← advance
    return .tuple (start.merge close.span) []
  let first ← sub .full
  if ← check (.keyword .for_) then fail .generator
  else if ← check (.symbol .comma) then
    let others ← moreItems (· == .symbol .rightParen) (sub .full)
    let close ← expect (.symbol .rightParen)
    return .tuple (start.merge close.span) (first :: others)
  else
    let _ ← expect (.symbol .rightParen)
    return first

/-- The rest of a comprehension, from its `for`. -/
def comprehension (start : Span) (element : Expr) : Parser Expr := do
  let _ ← advance
  let target ← targetList sub
  let _ ← expect (.keyword .in_)
  let source ← sub .disjunction
  let conditions ← loop (fun (acc : List Expr) => do
    if ← eat (.keyword .if_) then return .inl ((← sub .disjunction) :: acc)
    else return .inr acc.reverse) []
  let close ← expect (.symbol .rightBracket)
  return .comprehension (start.merge close.span) element target source conditions

/-- A list, or a comprehension if its first element has a `for` behind it. -/
def list : Parser Expr := do
  let start := (← advance).span
  let close (items : List Expr) : Parser Expr := do
    let bracket ← expect (.symbol .rightBracket)
    return .list (start.merge bracket.span) items
  if (← check (.symbol .rightBracket)) || (← atEnd) then close []
  else
    let first ← sub .full
    if ← check (.keyword .for_) then comprehension sub start first
    else if ← eat (.symbol .comma) then
      close (first :: (← separated (.symbol .rightBracket) (sub .full)))
    else close [first]

/-- An entry of a dict. -/
def entry : Parser (Expr × Expr) := do
  let key ← sub .full
  let _ ← expect (.symbol .colon)
  let value ← sub .full
  return (key, value)

/-- A dict. -/
def dict : Parser Expr := do
  let start := (← advance).span
  let entries ← separated (.symbol .rightBrace) (entry sub)
  let close ← expect (.symbol .rightBrace)
  return .dict (start.merge close.span) entries

/-- A `yield`, with or without a value. -/
def yield : Parser Expr := do
  let start := (← advance).span
  let next ← kind
  if endsLine next || next == .symbol .rightParen then return .yield start none
  let value ← expressionList sub
  return .yield (start.merge value.span) (some value)

/-- An expression that needs no operator. -/
def atom : Parser Expr := do
  let span ← here
  let leaf (e : Expr) : Parser Expr := do
    let _ ← advance
    return e
  match ← kind with
  | .int value => leaf (.int span value)
  | .float value => leaf (.float span value)
  | .str _ => strings
  | .keyword .true => leaf (.bool span true)
  | .keyword .false => leaf (.bool span false)
  | .keyword .none => leaf (.none span)
  | .identifier name => leaf (.name span name)
  | .symbol .leftParen => parenthesized sub
  | .symbol .leftBracket => list sub
  | .symbol .leftBrace => dict sub
  | .reserved "yield" => yield sub
  | found => fail (.expectedExpression found)

/-! ## Attributes, subscripts and calls -/

/-- A bound of a slice, if there is one. -/
def sliceBound : Parser (Option Expr) := do
  match ← kind with
  | .symbol .colon => return none
  | .symbol .rightBracket => return none
  | .symbol .comma => return none
  | _ => return some (← sub .full)

/-- The rest of a slice, from its first colon. -/
def sliceRest (start : Span) (lower : Option Expr) : Parser Expr := do
  let _ ← advance
  let upper ← sliceBound sub
  let step ← if ← eat (.symbol .colon) then sliceBound sub else pure none
  return .slice (start.merge (← last)) lower upper step

/-- What stands in the brackets of a subscript. -/
def subscript : Parser Expr := do
  let start ← here
  if ← check (.symbol .colon) then sliceRest sub start none
  else
    let index ← expressionList sub
    if ← check (.symbol .colon) then sliceRest sub start (some index)
    else return index

/-- An atom with the attributes, subscripts and calls behind it. -/
def suffixed : Parser Expr := do
  let base ← atom sub
  loop (fun value => do
    match ← kind with
    | .symbol .dot =>
      let _ ← advance
      let attr ← identifier
      return .inl (.attribute (value.span.merge attr.span) value attr)
    | .symbol .leftBracket =>
      let _ ← advance
      let index ← subscript sub
      let close ← expect (.symbol .rightBracket)
      return .inl (.subscript (value.span.merge close.span) value index)
    | .symbol .leftParen =>
      let _ ← advance
      let args ← separated (.symbol .rightParen) (arg sub)
      let close ← expect (.symbol .rightParen)
      return .inl (.call (value.span.merge close.span) value args)
    | _ => return .inr value) base

/-! ## The binding levels -/

/-- Signs, and powers, whose exponent may have a sign again. -/
def factorUpTo : Nat → Parser Expr
  | 0 => fun _ => .exhausted
  | bound + 1 => do
    match signOp (← kind) with
    | some op =>
      let start := (← advance).span
      let operand ← factorUpTo bound
      return .unary (start.merge operand.span) op operand
    | none =>
      let base ← suffixed sub
      if ← eat (.symbol .doubleStar) then
        return binary base .pow (← factorUpTo bound)
      else return base

def factor : Parser Expr := bounded (factorUpTo sub)

def term : Parser Expr := leftGrouped termOp (factor sub)

def additive : Parser Expr := leftGrouped additiveOp (term sub)

def shift : Parser Expr := leftGrouped shiftOp (additive sub)

def bitAnd : Parser Expr := leftGrouped bitAndOp (shift sub)

def bitXor : Parser Expr := leftGrouped bitXorOp (bitAnd sub)

def bitOr : Parser Expr := leftGrouped bitOrOp (bitXor sub)

/-- A comparison, a chain of them, or an operand alone. -/
def comparison : Parser Expr := do
  let left ← bitOr sub
  let rest ← loop (fun (acc : List (CompareOp × Expr)) => do
    match compareOp? (← kind) (← second) with
    | none => return .inr acc.reverse
    | some (op, both) =>
      let _ ← advance
      if both then let _ ← advance
      let right ← bitOr sub
      return .inl ((op, right) :: acc)) []
  match rest.getLast? with
  | none => return left
  | some (_, right) => return .compare (left.span.merge right.span) left rest

/-- Any number of `not` in front of a comparison. -/
def negationUpTo : Nat → Parser Expr
  | 0 => fun _ => .exhausted
  | bound + 1 => do
    if ← check (.keyword .not) then
      let start := (← advance).span
      let operand ← negationUpTo bound
      return .unary (start.merge operand.span) .not operand
    else comparison sub

def negation : Parser Expr := bounded (negationUpTo sub)

def conjunction : Parser Expr := leftGrouped andOp (negation sub)

def disjunction : Parser Expr := leftGrouped orOp (conjunction sub)

/-- `body if test else orelse`, or the body alone. -/
def ternary : Parser Expr := do
  let body ← disjunction sub
  if ← eat (.keyword .if_) then
    let test ← disjunction sub
    let _ ← expect (.keyword .else_)
    let orelse ← sub .full
    return .ternary (body.span.merge orelse.span) test body orelse
  else return body

/-- `lambda params: body`. -/
def lambda : Parser Expr := do
  let start := (← advance).span
  let ps ← params sub (.symbol .colon)
  let _ ← expect (.symbol .colon)
  let body ← sub .full
  return .lambda (start.merge body.span) ps body

/-- Counts one more open expression while `p` runs; too many of them are a fault. -/
def nested (p : Parser Expr) : Parser Expr := fun s =>
  if s.depth < maxNesting then
    match p { s with depth := s.depth + 1 } with
    | .done e s' => .done e { s' with depth := s'.depth - 1 }
    | .failed s' => .failed { s' with depth := s'.depth - 1 }
    | .exhausted => .exhausted
  else fail .nestingTooDeep s

/-- Any expression. -/
def full : Parser Expr :=
  nested do
    if ← check (.keyword .lambda) then lambda sub else ternary sub

end

/-! ## Recursion -/

/-- The expressions of a level whose inner expressions recur at most `bound` times. -/
def parseAt : Nat → Sub
  | 0, _ => fun _ => .exhausted
  | bound + 1, .full => full (parseAt bound)
  | bound + 1, .disjunction => disjunction (parseAt bound)
  | bound + 1, .bitwise => bitOr (parseAt bound)

/-- The expressions of a level. -/
def expressionAt : Sub := fun level => bounded fun bound => parseAt bound level

/-- Any expression. -/
def expression : Parser Expr :=
  expressionAt .full

end ViewSync.Parser
