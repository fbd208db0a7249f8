/-!
# ViewSync.Tree.Operator

The operators of view sources, with the symbols by which sources and messages name them.
-/

namespace ViewSync

/-- Binary operators; `or` and `and` are among them, comparisons are not. -/
inductive BinaryOp where
  | or
  | and
  | bitOr
  | bitXor
  | bitAnd
  | shiftLeft
  | shiftRight
  | add
  | sub
  | mul
  | div
  | floorDiv
  | mod
  | pow
deriving DecidableEq, Repr

namespace BinaryOp

/-- The operator as written in a view source. -/
def symbol : BinaryOp → String
  | .or => "or"
  | .and => "and"
  | .bitOr => "|"
  | .bitXor => "^"
  | .bitAnd => "&"
  | .shiftLeft => "<<"
  | .shiftRight => ">>"
  | .add => "+"
  | .sub => "-"
  | .mul => "*"
  | .div => "/"
  | .floorDiv => "//"
  | .mod => "%"
  | .pow => "**"

/-- All binary operators. -/
def all : List BinaryOp :=
  [.or, .and, .bitOr, .bitXor, .bitAnd, .shiftLeft, .shiftRight, .add, .sub, .mul, .div, .floorDiv,
   .mod, .pow]

/-- The operator with the given symbol. -/
def ofSymbol? (s : String) : Option BinaryOp :=
  all.find? (·.symbol == s)

/-- The operators that do not always evaluate their right operand. -/
def isLogical : BinaryOp → Bool
  | .or => true
  | .and => true
  | _ => false

end BinaryOp

/-- Comparison operators. -/
inductive CompareOp where
  | eq
  | notEq
  | less
  | greater
  | lessEq
  | greaterEq
  | isIn
  | notIn
  | is
  | isNot
deriving DecidableEq, Repr

namespace CompareOp

/-- The operator as written in a view source. -/
def symbol : CompareOp → String
  | .eq => "=="
  | .notEq => "!="
  | .less => "<"
  | .greater => ">"
  | .lessEq => "<="
  | .greaterEq => ">="
  | .isIn => "in"
  | .notIn => "not in"
  | .is => "is"
  | .isNot => "is not"

/-- All comparison operators. -/
def all : List CompareOp :=
  [.eq, .notEq, .less, .greater, .lessEq, .greaterEq, .isIn, .notIn, .is, .isNot]

/-- The operator with the given symbol. -/
def ofSymbol? (s : String) : Option CompareOp :=
  all.find? (·.symbol == s)

end CompareOp

/-- Unary operators. -/
inductive UnaryOp where
  | neg
  | pos
  | not
  | invert
deriving DecidableEq, Repr

namespace UnaryOp

/-- The operator as written in a view source. -/
def symbol : UnaryOp → String
  | .neg => "-"
  | .pos => "+"
  | .not => "not"
  | .invert => "~"

end UnaryOp

end ViewSync
