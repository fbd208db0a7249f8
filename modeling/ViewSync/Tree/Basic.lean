import ViewSync.Source.Span
import ViewSync.Tree.Operator

/-!
# ViewSync.Tree.Basic

The tree of a view source. It holds more than is compiled: slices, tuples, comprehensions, keyword
arguments and the statements of `RefusedStmt` have nodes of their own, so that the compiler can say what
it does not support. Every node has its span.
-/

namespace ViewSync

/-- A name and where it stands. -/
structure Ident where
  name : String
  span : Span
deriving DecidableEq, Repr

/-! ## Expressions -/

mutual

/-- An expression. -/
inductive Expr where
  | int (span : Span) (value : Int)
  | float (span : Span) (value : Float)
  | str (span : Span) (text : String)
  | bool (span : Span) (value : Bool)
  | none (span : Span)
  | list (span : Span) (items : List Expr)
  | tuple (span : Span) (items : List Expr)
  | dict (span : Span) (entries : List (Expr × Expr))
  | name (span : Span) (id : String)
  | attribute (span : Span) (value : Expr) (attr : Ident)
  | subscript (span : Span) (value index : Expr)
  /-- `lower:upper:step`, only as a subscript. -/
  | slice (span : Span) (lower upper step : Option Expr)
  | call (span : Span) (callee : Expr) (args : List Arg)
  | binary (span : Span) (left : Expr) (op : BinaryOp) (right : Expr)
  | unary (span : Span) (op : UnaryOp) (operand : Expr)
  /-- A comparison, or a chain of them. -/
  | compare (span : Span) (left : Expr) (rest : List (CompareOp × Expr))
  /-- `body if test else orelse`. -/
  | ternary (span : Span) (test body orelse : Expr)
  | lambda (span : Span) (params : List Param) (body : Expr)
  /-- `[element for target in source if condition …]`. -/
  | comprehension (span : Span) (element target source : Expr) (conditions : List Expr)
  | yield (span : Span) (value : Option Expr)

/-- An argument of a call. -/
inductive Arg where
  | positional (value : Expr)
  | starred (value : Expr)
  | keyword (name : Ident) (value : Expr)
  | doubleStarred (value : Expr)

/-- A parameter of a function. -/
inductive Param where
  | mk (name : Ident) (default : Option Expr) (span : Span)

end

namespace Param

/-- The name of a parameter. -/
def name : Param → Ident
  | .mk name _ _ => name

/-- The default value of a parameter. -/
def default? : Param → Option Expr
  | .mk _ default _ => default

/-- Where a parameter stands. -/
def span : Param → Span
  | .mk _ _ span => span

end Param

namespace Expr

/-- Where an expression stands. -/
def span : Expr → Span
  | .int span _ => span
  | .float span _ => span
  | .str span _ => span
  | .bool span _ => span
  | .none span => span
  | .list span _ => span
  | .tuple span _ => span
  | .dict span _ => span
  | .name span _ => span
  | .attribute span _ _ => span
  | .subscript span _ _ => span
  | .slice span _ _ _ => span
  | .call span _ _ => span
  | .binary span _ _ _ => span
  | .unary span _ _ => span
  | .compare span _ _ => span
  | .ternary span _ _ _ => span
  | .lambda span _ _ => span
  | .comprehension span _ _ _ _ => span
  | .yield span _ => span

/-- How messages name the kind of an expression. -/
def nodeName : Expr → String
  | .int .. => "Num"
  | .float .. => "Num"
  | .str .. => "Str"
  | .bool .. => "NameConstant"
  | .none .. => "NameConstant"
  | .list .. => "List"
  | .tuple .. => "Tuple"
  | .dict .. => "Dict"
  | .name .. => "Name"
  | .attribute .. => "Attribute"
  | .subscript .. => "Subscript"
  | .slice .. => "Slice"
  | .call .. => "Call"
  | .binary _ _ op _ => if op.isLogical then "BoolOp" else "BinOp"
  | .unary .. => "UnaryOp"
  | .compare .. => "Compare"
  | .ternary .. => "IfExp"
  | .lambda .. => "Lambda"
  | .comprehension .. => "ListComp"
  | .yield .. => "Yield"

/-- The name, if the expression is one. -/
def asName? : Expr → Option String
  | .name _ id => some id
  | _ => Option.none

end Expr

/-! ## Statements -/

/-- Statements that are recognized and never compiled. -/
inductive RefusedStmt where
  | with_
  | try_
  | raise
  | import_
  | importFrom
  | global
  | nonlocal
  | assert
  | break_
  | continue_
  | async
deriving DecidableEq, Repr

namespace RefusedStmt

/-- The word that a statement starts with. -/
def word : RefusedStmt → String
  | .with_ => "with"
  | .try_ => "try"
  | .raise => "raise"
  | .import_ => "import"
  | .importFrom => "from"
  | .global => "global"
  | .nonlocal => "nonlocal"
  | .assert => "assert"
  | .break_ => "break"
  | .continue_ => "continue"
  | .async => "async"

/-- How messages name a statement. -/
def nodeName : RefusedStmt → String
  | .with_ => "With"
  | .try_ => "Try"
  | .raise => "Raise"
  | .import_ => "Import"
  | .importFrom => "ImportFrom"
  | .global => "Global"
  | .nonlocal => "Nonlocal"
  | .assert => "Assert"
  | .break_ => "Break"
  | .continue_ => "Continue"
  | .async => "AsyncFunctionDef"

/-- All of them. -/
def all : List RefusedStmt :=
  [.with_, .try_, .raise, .import_, .importFrom, .global, .nonlocal, .assert, .break_, .continue_,
   .async]

/-- The statement that starts with the given word. -/
def ofWord? (s : String) : Option RefusedStmt :=
  all.find? (·.word == s)

end RefusedStmt

mutual

/-- A statement. -/
inductive Stmt where
  | function (def_ : FunctionDef)
  | class_ (def_ : ClassDef)
  /-- `target = value`; a chain of assignments has several targets. -/
  | assign (span : Span) (targets : List Expr) (value : Expr)
  | augAssign (span : Span) (target : Expr) (op : BinaryOp) (value : Expr)
  | if_ (chain : IfChain)
  | for_ (span : Span) (target source : Expr) (body : List Stmt) (orelse : Option (List Stmt))
  | while_ (span : Span) (condition : Expr) (body : List Stmt) (orelse : Option (List Stmt))
  | return_ (span : Span) (value : Option Expr)
  | delete (span : Span) (targets : List Expr)
  | pass (span : Span)
  | expr (span : Span) (value : Expr)
  | refused (span : Span) (stmt : RefusedStmt)

/-- `def name(params): body`. -/
inductive FunctionDef where
  | mk (span : Span) (name : Ident) (params : List Param) (decorators : List Expr) (body : List Stmt)

/-- `class name(bases): body`. -/
inductive ClassDef where
  | mk (span : Span) (name : Ident) (bases : List Expr) (decorators : List Expr) (body : List Stmt)

/-- `if condition: body` with what follows it. -/
inductive IfChain where
  | mk (span : Span) (condition : Expr) (body : List Stmt) (orelse : Else)

/-- The end of an `if`, its next condition, or its last block. -/
inductive Else where
  | nothing
  | elif (chain : IfChain)
  | block (body : List Stmt)

end

/-- A block of statements. -/
abbrev Block := List Stmt

namespace FunctionDef

/-- Where a function stands. -/
def span : FunctionDef → Span
  | .mk span _ _ _ _ => span

/-- The name of a function. -/
def name : FunctionDef → Ident
  | .mk _ name _ _ _ => name

/-- The parameters of a function. -/
def params : FunctionDef → List Param
  | .mk _ _ params _ _ => params

/-- The decorators of a function. -/
def decorators : FunctionDef → List Expr
  | .mk _ _ _ decorators _ => decorators

/-- The body of a function. -/
def body : FunctionDef → Block
  | .mk _ _ _ _ body => body

end FunctionDef

namespace ClassDef

/-- Where a class stands. -/
def span : ClassDef → Span
  | .mk span _ _ _ _ => span

/-- The name of a class. -/
def name : ClassDef → Ident
  | .mk _ name _ _ _ => name

/-- The bases of a class. -/
def bases : ClassDef → List Expr
  | .mk _ _ bases _ _ => bases

/-- The decorators of a class. -/
def decorators : ClassDef → List Expr
  | .mk _ _ _ decorators _ => decorators

/-- The body of a class. -/
def body : ClassDef → Block
  | .mk _ _ _ _ body => body

end ClassDef

/-- Where an `if` stands, from its word to the end of the whole chain. -/
def IfChain.span : IfChain → Span
  | .mk span _ _ _ => span

namespace Stmt

/-- Where a statement stands. -/
def span : Stmt → Span
  | .function def_ => def_.span
  | .class_ def_ => def_.span
  | .assign span _ _ => span
  | .augAssign span _ _ _ => span
  | .if_ chain => chain.span
  | .for_ span _ _ _ _ => span
  | .while_ span _ _ _ => span
  | .return_ span _ => span
  | .delete span _ => span
  | .pass span => span
  | .expr span _ => span
  | .refused span _ => span

/-- How messages name the kind of a statement. -/
def nodeName : Stmt → String
  | .function _ => "FunctionDef"
  | .class_ _ => "ClassDef"
  | .assign .. => "Assign"
  | .augAssign .. => "AugAssign"
  | .if_ _ => "If"
  | .for_ .. => "For"
  | .while_ .. => "While"
  | .return_ .. => "Return"
  | .delete .. => "Delete"
  | .pass _ => "Pass"
  | .expr .. => "Expr"
  | .refused _ stmt => stmt.nodeName

end Stmt

/-- A whole view source. -/
structure Module where
  body : Block
  span : Span

end ViewSync
