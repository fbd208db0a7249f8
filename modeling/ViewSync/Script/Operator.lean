import ViewSync.Tree.Operator

/-!
# ViewSync.Script.Operator

The operators of scripts, and which operators of view sources they answer to. Floor division, shifts,
membership and identity have no counterpart.
-/

namespace ViewSync.Script

/-- Binary operators of scripts. -/
inductive BinaryOp where
  | or
  | and
  | bitOr
  | bitXor
  | bitAnd
  | add
  | sub
  | mul
  | div
  | mod
  | pow
deriving DecidableEq, Repr

namespace BinaryOp

/-- The operator as written in a script. -/
def symbol : BinaryOp → String
  | .or => "||"
  | .and => "&&"
  | .bitOr => "|"
  | .bitXor => "^"
  | .bitAnd => "&"
  | .add => "+"
  | .sub => "-"
  | .mul => "*"
  | .div => "/"
  | .mod => "%"
  | .pow => "**"

/-- The counterpart of an operator of view sources. -/
def ofSource? : ViewSync.BinaryOp → Option BinaryOp
  | .or => some .or
  | .and => some .and
  | .bitOr => some .bitOr
  | .bitXor => some .bitXor
  | .bitAnd => some .bitAnd
  | .add => some .add
  | .sub => some .sub
  | .mul => some .mul
  | .div => some .div
  | .mod => some .mod
  | .pow => some .pow
  | .floorDiv => none
  | .shiftLeft => none
  | .shiftRight => none

end BinaryOp

/-- Comparison operators of scripts; equality is strict. -/
inductive CompareOp where
  | eq
  | notEq
  | less
  | greater
  | lessEq
  | greaterEq
deriving DecidableEq, Repr

namespace CompareOp

/-- The operator as written in a script. -/
def symbol : CompareOp → String
  | .eq => "==="
  | .notEq => "!=="
  | .less => "<"
  | .greater => ">"
  | .lessEq => "<="
  | .greaterEq => ">="

/-- The counterpart of an operator of view sources. -/
def ofSource? : ViewSync.CompareOp → Option CompareOp
  | .eq => some .eq
  | .notEq => some .notEq
  | .less => some .less
  | .greater => some .greater
  | .lessEq => some .lessEq
  | .greaterEq => some .greaterEq
  | .isIn => none
  | .notIn => none
  | .is => none
  | .isNot => none

end CompareOp

/-- A unary operator as written in a script. -/
def unarySymbol : ViewSync.UnaryOp → String
  | .neg => "-"
  | .pos => "+"
  | .not => "!"
  | .invert => "~"

end ViewSync.Script
