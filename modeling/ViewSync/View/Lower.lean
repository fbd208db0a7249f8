import ViewSync.Script.Basic
import ViewSync.Text.Uppercase
import ViewSync.View.Scope

/-!
# ViewSync.View.Lower

From the tree of a view source to the tree of a script. Names go through the replacement table, targets
that declare are marked as the scopes say, and the first construct without a counterpart is refused.
-/

namespace ViewSync.Lower

/-- What lowering depends on. -/
structure Env where
  table : Replacements
  declared : Scope.Declarations

/-! ## Names -/

/-- The parameters of a function; default values are refused. -/
def params (env : Env) : List Param → Except Refusal (List String)
  | [] => .ok []
  | p :: rest =>
    match p.default? with
    | some _ =>
      .error (.node "arguments" p.span (some "default parameter values are not supported"))
    | none => do return env.table.identifier p.name.name :: (← params env rest)

/-- A call of a capitalized name makes an instance. -/
def constructs (callee : Expr) : Bool :=
  match callee.asName? with
  | some name => Text.isCapitalized name
  | none => false

/-! ## Expressions -/

/-- A dict key has to be a string or a number. -/
def checkKey (key : Expr) : Except Refusal Unit :=
  match key with
  | .str .. => .ok ()
  | .int .. => .ok ()
  | .float .. => .ok ()
  | other => .error (.key other.nodeName other.span)

mutual

/-- An expression. -/
def expr (env : Env) : Expr → Except Refusal Script.Expr
  | .int _ value => .ok (.int value)
  | .float _ value => .ok (.float value)
  | .str _ text => .ok (.str text)
  | .bool _ value => .ok (.bool value)
  | .none _ => .ok .null
  | .list _ items => do return .list (← exprs env items)
  | .dict _ items => do return .dict (← entries env items)
  | .tuple span _ => .error (.node "Tuple" span (some "tuples are not supported, use a list"))
  | .name _ id => .ok (.name (env.table.identifier id))
  | .attribute _ value attr => do return .attribute (← expr env value) attr.name
  | .subscript _ value index => do
    let value ← expr env value
    let index ← expr env index
    return .subscript value index
  | .slice span .. =>
    .error (.node "Slice" span (some "slices are not handled, use the .slice(...) method"))
  | .call _ callee items => do
    let target ← expr env callee
    let items ← args env items
    return if constructs callee then .construct target items else .call target items
  | .binary span left op right => do
    let left ← expr env left
    let right ← expr env right
    match Script.BinaryOp.ofSource? op with
    | some op => return .binary left op right
    | none => throw (.operator op.symbol span)
  | .unary _ op operand => do return .unary op (← expr env operand)
  | .compare span left [(op, right)] => do
    let left ← expr env left
    let right ← expr env right
    match Script.CompareOp.ofSource? op with
    | some op => return .compare left op right
    | none => throw (.operator op.symbol span)
  | .compare span _ _ =>
    .error (.node "Compare" span (some "chained comparisons are not supported"))
  | .ternary _ test body orelse => do
    let test ← expr env test
    let body ← expr env body
    let orelse ← expr env orelse
    return .ternary test body orelse
  | .lambda _ ps body => do
    let names ← params env ps
    return .lambda names (← expr env body)
  | .comprehension span .. =>
    .error (.node "ListComp" span (some "use a for loop or .map(...)"))
  | .yield span _ => .error (.node "Yield" span none)

/-- Several expressions, from left to right. -/
def exprs (env : Env) : List Expr → Except Refusal (List Script.Expr)
  | [] => .ok []
  | e :: rest => do
    let e ← expr env e
    return e :: (← exprs env rest)

/-- The entries of a dict. -/
def entries (env : Env) : List (Expr × Expr) → Except Refusal (List (Script.Expr × Script.Expr))
  | [] => .ok []
  | (key, value) :: rest => do
    checkKey key
    let key ← expr env key
    let value ← expr env value
    return (key, value) :: (← entries env rest)

/-- An argument of a call. -/
def arg (env : Env) : Arg → Except Refusal Script.Expr
  | .positional value => expr env value
  | .starred value => do return .spread (← expr env value)
  | .keyword name value =>
    .error (.node "keyword" (name.span.merge value.span)
      (some "keyword arguments are not supported"))
  | .doubleStarred value =>
    .error (.node "keyword" value.span (some "'**' arguments are not supported"))

/-- The arguments of a call. -/
def args (env : Env) : List Arg → Except Refusal (List Script.Expr)
  | [] => .ok []
  | a :: rest => do
    let a ← arg env a
    return a :: (← args env rest)

end

/-! ## Targets -/

/-- A name, an attribute or a subscript that is written to. -/
def store (env : Env) (target : Expr) : Except Refusal Script.Expr :=
  match target with
  | .name .. => expr env target
  | .attribute .. => expr env target
  | .subscript .. => expr env target
  | other => .error (.target other.nodeName other.span)

/-- The names of a loop over several of them. -/
def loopNames (env : Env) : List Expr → Except Refusal (List String)
  | [] => .ok []
  | .name _ id :: rest => do return env.table.identifier id :: (← loopNames env rest)
  | other :: _ => .error (.target other.nodeName other.span)

/-- What a loop binds. -/
def binding (env : Env) : Expr → Except Refusal Script.Binding
  | .name _ id => .ok (.single (env.table.identifier id))
  | .tuple _ items => do return .several (← loopNames env items)
  | other => .error (.target other.nodeName other.span)

/-- The object of `object.items()`. -/
def itemsReceiver? : Expr → Option Expr
  | .call _ (.attribute _ value attr) [] => if attr.name = "items" then some value else none
  | _ => none

/-- What a loop goes over. -/
def iteration (env : Env) (binding : Script.Binding) (source : Expr) :
    Except Refusal (Script.Iteration × Script.Expr) :=
  match itemsReceiver? source with
  | none => do return (.values, ← expr env source)
  | some object => do
    let object ← expr env object
    match binding with
    | .single _ => return (.keys, object)
    | .several _ => return (.entries, object)

/-! ## Statements -/

/-- The symbol by which an augmented assignment is refused; the logical operators share one. -/
def augmentedSymbol : BinaryOp → String
  | .or => "and="
  | op => op.symbol ++ "="

/-- Decorators are refused. -/
def checkDecorators (node : String) : List Expr → Except Refusal Unit
  | [] => .ok ()
  | d :: _ => .error (.node node d.span (some "decorators are not supported"))

/-- Base classes are refused. -/
def checkBases : List Expr → Except Refusal Unit
  | [] => .ok ()
  | b :: _ => .error (.node "ClassDef" b.span (some "base classes are not supported"))

/-- The `else` of a loop is refused. -/
def checkLoopElse (node : String) (span : Span) : Option Block → Except Refusal Unit
  | none => .ok ()
  | some _ => .error (.node node span (some "loop 'else' blocks are not supported"))

/-- The one target of a `del`: an attribute or a subscript. -/
def deleteTarget (env : Env) (span : Span) : List Expr → Except Refusal Script.Expr
  | [target] =>
    match target with
    | .attribute .. => expr env target
    | .subscript .. => expr env target
    | other => .error (.target other.nodeName other.span)
  | _ => .error (.node "Delete" span (some "delete one target per statement"))

/-- The one target of an assignment. -/
def assignTarget (env : Env) (span : Span) : List Expr → Except Refusal (Bool × Script.Expr)
  | [target] => do
    let lowered ← store env target
    return (env.declared.contains target.span, lowered)
  | _ => .error (.node "Assign" span (some "chained assignment is not supported"))

/-- The value of a `return`. -/
def optional (env : Env) : Option Expr → Except Refusal (Option Script.Expr)
  | none => .ok none
  | some e => do return some (← expr env e)

mutual

/-- A statement. -/
def stmt (env : Env) : Stmt → Except Refusal Script.Stmt
  | .function def_ => do
    let (signature, body) ← function env def_
    return .function signature body
  | .class_ def_ => classDef env def_
  | .assign span targets value => do
    let (declared, target) ← assignTarget env span targets
    return .assign declared target (← expr env value)
  | .augAssign span target op value =>
    if op = .add then do
      let target ← store env target
      return .addAssign target (← expr env value)
    else .error (.operator (augmentedSymbol op) span)
  | .if_ chain => do
    let (branches, orelse) ← ifChain env chain
    return .ifChain branches orelse
  | .for_ span target source body orelse => do
    checkLoopElse "For" span orelse
    let bound ← binding env target
    let body ← block env body
    let (iteration, source) ← iteration env bound source
    return .for_ (env.declared.contains target.span) bound iteration source body
  | .while_ span condition body orelse => do
    checkLoopElse "While" span orelse
    let condition ← expr env condition
    return .while_ condition (← block env body)
  | .return_ _ value => do return .return_ (← optional env value)
  | .delete span targets => do return .delete (← deleteTarget env span targets)
  | .pass _ => .ok .pass
  | .expr _ value => do return .expr (← expr env value)
  | .refused span stmt => .error (.node stmt.nodeName span none)

/-- A function with its body. -/
def function (env : Env) : FunctionDef → Except Refusal (Script.Signature × List Script.Stmt)
  | .mk _ name ps decorators body => do
    checkDecorators "FunctionDef" decorators
    let names ← params env ps
    return (⟨name.name, names⟩, ← block env body)

/-- A class. -/
def classDef (env : Env) : ClassDef → Except Refusal Script.Stmt
  | .mk _ name bases decorators body => do
    checkDecorators "ClassDef" decorators
    checkBases bases
    return .class_ name.name (← methods env body)

/-- The methods of a class; nothing else may stand in it but `pass`. -/
def methods (env : Env) : List Stmt → Except Refusal (List (Script.Signature × List Script.Stmt))
  | [] => .ok []
  | .function def_ :: rest => do
    let method ← function env def_
    return method :: (← methods env rest)
  | .pass _ :: rest => methods env rest
  | other :: _ =>
    .error (.node other.nodeName other.span (some "class bodies may only contain methods"))

/-- The branches of an `if`, and its last block. -/
def ifChain (env : Env) :
    IfChain → Except Refusal (List (Script.Expr × List Script.Stmt) × Option (List Script.Stmt))
  | .mk _ condition body orelse => do
    let condition ← expr env condition
    let body ← block env body
    let (branches, last) ← ifElse env orelse
    return ((condition, body) :: branches, last)

/-- What follows a branch. -/
def ifElse (env : Env) :
    Else → Except Refusal (List (Script.Expr × List Script.Stmt) × Option (List Script.Stmt))
  | .nothing => .ok ([], none)
  | .elif chain => ifChain env chain
  | .block body => do return ([], some (← block env body))

/-- The statements of a block. -/
def block (env : Env) : List Stmt → Except Refusal (List Script.Stmt)
  | [] => .ok []
  | s :: rest => do
    let s ← stmt env s
    return s :: (← block env rest)

end

/-! ## Items -/

/-- What a top-level item of a view source is. -/
inductive ItemKind where
  | function
  | class_
deriving DecidableEq, Repr

/-- A compiled top-level item, as a tree. -/
structure Item where
  kind : ItemKind
  /-- The name in the view source. -/
  name : String
  /-- The parameters of a function, or of the constructor of a class. -/
  params : List String
  script : Script.Stmt

/-- The parameters of the first method named `constructor`. -/
def constructorParams (env : Env) : List Stmt → Except Refusal (List String)
  | [] => .ok []
  | .function def_ :: rest =>
    if def_.name.name = "constructor" then params env def_.params else constructorParams env rest
  | _ :: rest => constructorParams env rest

/-- A top-level item: a function or a class. -/
def item (env : Env) : Stmt → Except Refusal Item
  | .function def_ => do
    let names ← params env def_.params
    return ⟨.function, def_.name.name, names, ← stmt env (.function def_)⟩
  | .class_ def_ => do
    let names ← constructorParams env def_.body
    return ⟨.class_, def_.name.name, names, ← stmt env (.class_ def_)⟩
  | other =>
    .error (.node other.nodeName other.span
      (some "only 'def' and 'class' are allowed at module level"))

/-- The top-level items of a view source. -/
def items (env : Env) : List Stmt → Except Refusal (List Item)
  | [] => .ok []
  | s :: rest => do
    let i ← item env s
    return i :: (← items env rest)

/-- The top-level items of a view source, after its scopes have been looked at. -/
def module_ (m : Module) (table : Replacements) : Except Refusal (List Item) := do
  let declared ← Scope.analyze m table
  items ⟨table, declared⟩ m.body

end ViewSync.Lower
