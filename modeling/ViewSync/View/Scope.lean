import ViewSync.Tree.Basic
import ViewSync.View.Refusal
import ViewSync.View.Replacements

/-!
# ViewSync.View.Scope

Which targets of assignments and loops introduce a name. Every function body, class body, branch and loop
is a scope that starts with the names of the scope around it, so that a name bound in one branch is unknown
in the next one. A target with a name that is not known yet declares it; a loop over several names declares
all of them or none.
-/

namespace ViewSync.Scope

/-- The spans of the targets that declare their names. -/
structure Declarations where
  spans : List Span
deriving DecidableEq, Repr

namespace Declarations

/-- No target declares. -/
def empty : Declarations := ⟨[]⟩

/-- Whether the target at a span declares. -/
def contains (ds : Declarations) (span : Span) : Bool :=
  ds.spans.contains span

/-- The number of targets that declare. -/
def size (ds : Declarations) : Nat :=
  ds.spans.length

/-- Marks the target at a span. -/
def insert (ds : Declarations) (span : Span) : Declarations :=
  if ds.contains span then ds else ⟨span :: ds.spans⟩

end Declarations

/-- The names known in a scope, and the targets marked so far. -/
structure State where
  known : List String
  declared : Declarations

namespace State

/-- A name is known when it is replaced or bound. -/
def isBound (table : Replacements) (st : State) (name : String) : Bool :=
  table.contains name || st.known.contains name

/-- Makes names known. -/
def bind (st : State) (names : List String) : State :=
  { st with known := names ++ st.known }

/-- Makes a name known and marks the target that does so, unless it is known already. -/
def declare (table : Replacements) (st : State) (name : String) (span : Span) : State :=
  if st.isBound table name then st
  else { known := name :: st.known, declared := st.declared.insert span }

/-- The scope around, with the marks of the inner scope. -/
def leave (outer inner : State) : State :=
  { outer with declared := inner.declared }

end State

/-- A simple name among the targets of an assignment. -/
def visitTarget (table : Replacements) (st : State) : Expr → State
  | .name span id => st.declare table id span
  | _ => st

/-- The target of a loop. A tuple that holds anything but names is left to the compiler to refuse. -/
def visitLoopTarget (table : Replacements) (st : State) : Expr → Except Refusal State
  | .name span id => .ok (st.declare table id span)
  | .tuple span items =>
    let names := items.filterMap Expr.asName?
    if names.length ≠ items.length then .ok st
    else if names.all fun name => !st.isBound table name then
      .ok { st.bind names with declared := st.declared.insert span }
    else if names.all (st.isBound table) then .ok st
    else .error (.mixedDeclaration names span)
  | _ => .ok st

mutual

/-- A statement. -/
def visitStmt (table : Replacements) (st : State) : Stmt → Except Refusal State
  | .function def_ => visitFunction table st def_
  | .class_ def_ => visitClass table st def_
  | .assign _ targets _ => .ok (targets.foldl (visitTarget table) st)
  | .if_ chain => visitChain table st chain
  | .for_ _ target _ body orelse => do
    let inner ← visitLoopTarget table st target
    let inner ← visitBlock table inner body
    visitOptional table (st.leave inner) orelse
  | .while_ _ _ body orelse => do
    let inner ← visitBlock table st body
    visitOptional table (st.leave inner) orelse
  | .augAssign .. => .ok st
  | .return_ .. => .ok st
  | .delete .. => .ok st
  | .pass _ => .ok st
  | .expr .. => .ok st
  | .refused .. => .ok st

/-- A function binds its name outside and its parameters inside. -/
def visitFunction (table : Replacements) (st : State) : FunctionDef → Except Refusal State
  | .mk _ name params _ body => do
    let st := st.bind [name.name]
    let inner ← visitBlock table (st.bind (params.map fun p => p.name.name)) body
    return st.leave inner

/-- A class binds its name outside. -/
def visitClass (table : Replacements) (st : State) : ClassDef → Except Refusal State
  | .mk _ name _ _ body => do
    let st := st.bind [name.name]
    let inner ← visitBlock table st body
    return st.leave inner

/-- The branches of an `if`. -/
def visitChain (table : Replacements) (st : State) : IfChain → Except Refusal State
  | .mk _ _ body orelse => do
    let inner ← visitBlock table st body
    visitElse table (st.leave inner) orelse

/-- What follows a branch. -/
def visitElse (table : Replacements) (st : State) : Else → Except Refusal State
  | .nothing => .ok st
  | .elif chain => visitChain table st chain
  | .block body => do
    let inner ← visitBlock table st body
    return st.leave inner

/-- A block that may be absent. -/
def visitOptional (table : Replacements) (st : State) : Option (List Stmt) → Except Refusal State
  | none => .ok st
  | some body => do
    let inner ← visitBlock table st body
    return st.leave inner

/-- The statements of a block, one after another in one scope. -/
def visitBlock (table : Replacements) (st : State) : List Stmt → Except Refusal State
  | [] => .ok st
  | stmt :: rest => do
    let st ← visitStmt table st stmt
    visitBlock table st rest

end

/-- The targets of a source that declare. -/
def analyze (m : Module) (table : Replacements) : Except Refusal Declarations := do
  let st ← visitBlock table ⟨[], .empty⟩ m.body
  return st.declared

end ViewSync.Scope
