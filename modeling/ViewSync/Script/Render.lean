import ViewSync.Script.Basic
import ViewSync.Script.Fragment

/-!
# ViewSync.Script.Render

The text of a script, piece by piece from its tree.
-/

namespace ViewSync.Script

mutual

/-- The text of an expression. -/
def Expr.render : Expr → String
  | .int value => Fragment.int value
  | .float value => Fragment.float value
  | .str text => Fragment.string text
  | .bool value => Fragment.boolean value
  | .null => Fragment.null
  | .name text => text
  | .list items => Fragment.list (renderAll items)
  | .dict entries => Fragment.dict (renderEntries entries)
  | .attribute value attr => Fragment.member value.render attr
  | .subscript value index => Fragment.subscript value.render index.render
  | .call callee args => Fragment.call callee.render (renderAll args)
  | .construct callee args => Fragment.construct callee.render (renderAll args)
  | .spread value => Fragment.spread value.render
  | .binary left op right => Fragment.binary left.render op right.render
  | .compare left op right => Fragment.compare left.render op right.render
  | .unary op operand => Fragment.unary op operand.render
  | .ternary test body orelse => Fragment.ternary test.render body.render orelse.render
  | .lambda params body => Fragment.lambda params body.render

/-- The texts of several expressions. -/
def Expr.renderAll : List Expr → List String
  | [] => []
  | e :: rest => e.render :: renderAll rest

/-- The texts of the entries of a dict. -/
def Expr.renderEntries : List (Expr × Expr) → List (String × String)
  | [] => []
  | (key, value) :: rest => (key.render, value.render) :: renderEntries rest

end

/-- The text of what a loop binds. -/
def Binding.render : Binding → String
  | .single name => name
  | .several names => Fragment.destructure names

/-- A target with or without the declaring word. -/
def declaredText (declared : Bool) (text : String) : String :=
  if declared then Fragment.declare text else text

/-- The text of a loop. -/
def loopText (iteration : Iteration) (binding source : String) (body : List String) : String :=
  match iteration with
  | .values => Fragment.forValues binding source body
  | .keys => Fragment.forKeys binding source body
  | .entries => Fragment.forEntries binding source body

mutual

/-- The text of a statement. -/
def Stmt.render : Stmt → String
  | .function signature body => Fragment.function signature.name signature.params (renderBlock body)
  | .class_ name methods => Fragment.classDef name (renderMethods methods)
  | .assign declared target value =>
    Fragment.assign (declaredText declared target.render) value.render
  | .addAssign target value => Fragment.addAssign target.render value.render
  | .ifChain branches orelse => Fragment.ifChain (renderBranches branches) (renderElse orelse)
  | .for_ declared binding iteration source body =>
    loopText iteration (declaredText declared binding.render) source.render (renderBlock body)
  | .while_ condition body => Fragment.whileLoop condition.render (renderBlock body)
  | .return_ value => Fragment.returnStmt (value.map Expr.render)
  | .delete target => Fragment.delete target.render
  | .pass => Fragment.pass
  | .expr value => Fragment.exprStmt value.render

/-- The texts of the statements of a block. -/
def Stmt.renderBlock : List Stmt → List String
  | [] => []
  | stmt :: rest => stmt.render :: renderBlock rest

/-- The texts of the methods of a class. -/
def Stmt.renderMethods : List (Signature × List Stmt) → List String
  | [] => []
  | (signature, body) :: rest =>
    Fragment.method signature.name signature.params (renderBlock body) :: renderMethods rest

/-- The texts of conditions and of the blocks behind them. -/
def Stmt.renderBranches : List (Expr × List Stmt) → List (String × List String)
  | [] => []
  | (condition, body) :: rest => (condition.render, renderBlock body) :: renderBranches rest

/-- The texts of the last block of an `if`. -/
def Stmt.renderElse : Option (List Stmt) → Option (List String)
  | none => none
  | some body => some (renderBlock body)

end

end ViewSync.Script
