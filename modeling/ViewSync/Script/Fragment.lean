import ViewSync.Decimal.Layout
import ViewSync.Json.Printer
import ViewSync.Script.Operator
import ViewSync.Text.Lines

/-!
# ViewSync.Script.Fragment

Pieces of JavaScript text, made of the texts of their parts. Binary operations, comparisons and
conditionals always come in parentheses, so that no piece has to know what it is put into; only the
operand of a sign and the base of a power look at how the operand starts. A simple statement ends with a
semicolon, a block indents its lines by one tab.
-/

namespace ViewSync.Script.Fragment

/-- The name of the language. -/
def language : String := "javascript"

/-- Parts with commas between them. -/
def commas (parts : List String) : String :=
  ", ".intercalate parts

/-! ## Expressions -/

def int (value : Int) : String :=
  toString value

/-- A double; both infinities are written alike. -/
def float (value : Float) : String :=
  if value.isInf then "Infinity" else Decimal.literalText value

/-- A string literal; that of JSON will do. -/
def string (value : String) : String :=
  Json.quote value

def boolean (value : Bool) : String :=
  if value then "true" else "false"

def null : String := "null"

def list (items : List String) : String :=
  "[" ++ commas items ++ "]"

def dict (entries : List (String × String)) : String :=
  "\x7b" ++ commas (entries.map fun e => e.1 ++ ": " ++ e.2) ++ "\x7d"

/-- A pattern that binds several names. -/
def destructure (names : List String) : String :=
  "[" ++ commas names ++ "]"

def member (value attr : String) : String :=
  value ++ "." ++ attr

def subscript (value index : String) : String :=
  value ++ "[" ++ index ++ "]"

def call (callee : String) (args : List String) : String :=
  callee ++ "(" ++ commas args ++ ")"

/-- A call that makes an instance. -/
def construct (callee : String) (args : List String) : String :=
  "new " ++ call callee args

def spread (value : String) : String :=
  "..." ++ value

/-- Whether a text starts with one of some characters. -/
def startsWithAny (chars : List Char) (text : String) : Bool :=
  match text.toList with
  | [] => false
  | c :: _ => chars.contains c

/-- A binary operation. The base of a power must not be a bare unary operation. -/
def binary (left : String) (op : BinaryOp) (right : String) : String :=
  if op = .pow ∧ startsWithAny ['-', '+', '!', '~'] left then
    "((" ++ left ++ ") " ++ op.symbol ++ " " ++ right ++ ")"
  else "(" ++ left ++ " " ++ op.symbol ++ " " ++ right ++ ")"

def compare (left : String) (op : CompareOp) (right : String) : String :=
  "(" ++ left ++ " " ++ op.symbol ++ " " ++ right ++ ")"

/-- A unary operation. Two signs must not run together. -/
def unary (op : ViewSync.UnaryOp) (operand : String) : String :=
  if startsWithAny ['-', '+'] operand then unarySymbol op ++ "(" ++ operand ++ ")"
  else unarySymbol op ++ operand

def ternary (test body orelse : String) : String :=
  "(" ++ test ++ " ? " ++ body ++ " : " ++ orelse ++ ")"

/-- A function of one expression. An object would be taken for a block without parentheses. -/
def lambda (params : List String) (body : String) : String :=
  "(" ++ commas params ++ ") => "
    ++ if startsWithAny ['\x7b'] body then "(" ++ body ++ ")" else body

/-! ## Statements -/

/-- A statement inside a block: every line of it behind a tab. -/
def indented (stmt : String) : List Char :=
  (Text.lines stmt.toList).flatMap fun line => '\t' :: line ++ ['\n']

/-- Statements in braces. -/
def block (body : List String) : String :=
  String.ofList ('\x7b' :: '\n' :: body.flatMap indented ++ ['\x7d'])

/-- A binding that declares its names. -/
def declare (binding : String) : String :=
  "let " ++ binding

def assign (target value : String) : String :=
  target ++ " = " ++ value ++ ";"

def addAssign (target value : String) : String :=
  target ++ " += " ++ value ++ ";"

/-- One branch of an `if`. -/
def branch (condition : String) (body : List String) : String :=
  "if (" ++ condition ++ ") " ++ block body

/-- The last branch of an `if`. -/
def elseBranch (body : List String) : String :=
  " else " ++ block body

/-- An `if` with all its branches. -/
def ifChain (branches : List (String × List String)) (orelse : Option (List String)) : String :=
  " else ".intercalate (branches.map fun b => branch b.1 b.2)
    ++ (orelse.map elseBranch).getD ""

/-- A loop over the values of a sequence. -/
def forValues (binding iterable : String) (body : List String) : String :=
  "for (" ++ binding ++ " of " ++ iterable ++ ") " ++ block body

/-- A loop over the keys of an object. -/
def forKeys (binding object : String) (body : List String) : String :=
  "for (" ++ binding ++ " in " ++ object ++ ") " ++ block body

/-- A loop over the keys and values of an object. -/
def forEntries (binding object : String) (body : List String) : String :=
  "for (" ++ binding ++ " of Object.entries(" ++ object ++ ")) " ++ block body

def whileLoop (condition : String) (body : List String) : String :=
  "while (" ++ condition ++ ") " ++ block body

def returnStmt : Option String → String
  | none => "return;"
  | some value => "return " ++ value ++ ";"

def delete (target : String) : String :=
  "delete " ++ target ++ ";"

def pass : String := "// pass"

def exprStmt (expr : String) : String :=
  expr ++ ";"

/-! ## Items -/

def method (name : String) (params body : List String) : String :=
  name ++ "(" ++ commas params ++ ") " ++ block body

def function (name : String) (params body : List String) : String :=
  "function " ++ method name params body

def classDef (name : String) (members : List String) : String :=
  "class " ++ name ++ " " ++ block members

end ViewSync.Script.Fragment
