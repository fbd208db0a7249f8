import ViewSync.Digest.Sha256
import ViewSync.Text.Quoted
import ViewSync.View.Compile

/-!
# ViewSync.View.Definition

View types: a reference that names a view, its source, and what it compiles to. A view type compiles when
its definition is first asked for and keeps the outcome, good or bad.
-/

namespace ViewSync

/-- The name of a view type: the module it is defined in, the type around it if there is one, and its own
name. -/
structure ViewRef where
  modulePath : String
  typePath : String
  name : String
deriving DecidableEq, Repr

namespace ViewRef

/-- The parts of a reference with double colons between them; an empty type path is left out. -/
def render (ref : ViewRef) : String :=
  ref.modulePath ++ (if ref.typePath = "" then "" else "::" ++ ref.typePath) ++ "::" ++ ref.name

/-- A reference with its parts told apart. -/
def describe (ref : ViewRef) : String :=
  "ViewRef \x7b module_path: " ++ Text.quoted ref.modulePath ++ ", type_path: "
    ++ Text.quoted ref.typePath ++ ", name: " ++ Text.quoted ref.name ++ " \x7d"

end ViewRef

/-- A compiled view. -/
structure ViewDefinition where
  viewRef : ViewRef
  /-- The name of the item in the view source. -/
  name : String
  params : List String
  source : String
  /-- The digest of the compiled source. -/
  digest : String
deriving DecidableEq

/-- Compiles the source of one view, which has to be one item. -/
def compileView (ref : ViewRef) (source : String) (table : Replacements) :
    Except CompileError ViewDefinition := do
  match ← compileSource ref.render source table with
  | [item] => return ⟨ref, item.name, item.params, item.source, Digest.ofText item.source⟩
  | items => throw (.itemCount ref.render items.length)

/-- A view type. -/
structure ViewType where
  viewRef : ViewRef
  source : String
  table : Replacements
  /-- The outcome of compiling, once it has been asked for. -/
  compiled : Option (Except CompileError ViewDefinition)

namespace ViewType

/-- A view type that has not been compiled. -/
def new (ref : ViewRef) (source : String) (table : Replacements) : ViewType :=
  ⟨ref, source, table, none⟩

/-- The outcome of compiling, and the view type that keeps it. -/
def definition (view : ViewType) : Except CompileError ViewDefinition × ViewType :=
  match view.compiled with
  | some outcome => (outcome, view)
  | none =>
    let outcome := compileView view.viewRef view.source view.table
    (outcome, { view with compiled := some outcome })

/-- A view type as messages show it. -/
def describe (view : ViewType) : String :=
  "ViewType \x7b view_ref: " ++ view.viewRef.describe ++ ", compiled: "
    ++ (if view.compiled.isSome then "true" else "false") ++ " \x7d"

end ViewType

end ViewSync
