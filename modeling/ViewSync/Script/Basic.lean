import ViewSync.Script.Operator

/-!
# ViewSync.Script.Basic

The scripts that views are compiled to, as trees. What a script can hold is what JavaScript text is made
of here: a tree has no node that cannot be written.
-/

namespace ViewSync.Script

/-- An expression of a script. -/
inductive Expr where
  | int (value : Int)
  | float (value : Float)
  | str (text : String)
  | bool (value : Bool)
  | null
  /-- A name, or the text that replaces one. -/
  | name (text : String)
  | list (items : List Expr)
  /-- Keys are literals. -/
  | dict (entries : List (Expr × Expr))
  | attribute (value : Expr) (attr : String)
  | subscript (value index : Expr)
  | call (callee : Expr) (args : List Expr)
  /-- A call that makes an instance. -/
  | construct (callee : Expr) (args : List Expr)
  /-- An argument that stands for several ones. -/
  | spread (value : Expr)
  | binary (left : Expr) (op : BinaryOp) (right : Expr)
  | compare (left : Expr) (op : CompareOp) (right : Expr)
  | unary (op : ViewSync.UnaryOp) (operand : Expr)
  | ternary (test body orelse : Expr)
  | lambda (params : List String) (body : Expr)

/-- What a loop binds in each round. -/
inductive Binding where
  | single (name : String)
  | several (names : List String)

/-- What a loop goes over. -/
inductive Iteration where
  /-- The values of a sequence. -/
  | values
  /-- The keys of an object. -/
  | keys
  /-- The keys of an object with their values. -/
  | entries
deriving DecidableEq, Repr

/-- A function of a class. -/
structure Signature where
  name : String
  params : List String
deriving DecidableEq, Repr

/-- A statement of a script. A target that is `declared` is written with the declaring word. -/
inductive Stmt where
  | function (signature : Signature) (body : List Stmt)
  | class_ (name : String) (methods : List (Signature × List Stmt))
  | assign (declared : Bool) (target value : Expr)
  | addAssign (target value : Expr)
  /-- Conditions with their blocks, and the last block. -/
  | ifChain (branches : List (Expr × List Stmt)) (orelse : Option (List Stmt))
  | for_ (declared : Bool) (binding : Binding) (iteration : Iteration) (source : Expr)
      (body : List Stmt)
  | while_ (condition : Expr) (body : List Stmt)
  | return_ (value : Option Expr)
  | delete (target : Expr)
  | pass
  | expr (value : Expr)

end ViewSync.Script
