import ViewSync.Parser.Statement
import ViewSync.Script.Render
import ViewSync.Source.Dedent
import ViewSync.Token.Lex
import ViewSync.View.Lower

/-!
# ViewSync.View.Compile

From view source to JavaScript: the source is moved to the left edge, read as tokens and as a tree, and
each top-level item is lowered and written out. The faults of tokens and of grammar are reported together;
lowering starts only on a source without faults and reports its first refusal.
-/

namespace ViewSync

/-- Why a view source is not compiled. -/
inductive CompileError where
  /-- Faults of tokens and of grammar. -/
  | malformed (faults : Diagnostics)
  /-- The first construct that is not compiled. -/
  | unsupported (diagnostic : Diagnostic)
  /-- A view has to be one item. -/
  | itemCount (view : String) (found : Nat)
deriving DecidableEq

namespace CompileError

/-- The text of a failure. -/
def message : CompileError → String
  | .malformed faults => faults.render
  | .unsupported diagnostic => diagnostic.render
  | .itemCount view found =>
    "view '" ++ view ++ "' must define exactly one 'def' or 'class', found " ++ toString found

/-- The diagnostics that a failure carries. -/
def diagnostics : CompileError → List Diagnostic
  | .malformed faults => faults.stored
  | .unsupported diagnostic => [diagnostic]
  | .itemCount .. => []

end CompileError

/-- A compiled top-level item. -/
structure CompiledItem where
  kind : Lower.ItemKind
  name : String
  params : List String
  source : String
deriving DecidableEq

/-- The text of a lowered item. -/
def Lower.Item.compiled (item : Lower.Item) : CompiledItem :=
  ⟨item.kind, item.name, item.params, item.script.render⟩

/-- Compiles a tree. -/
def translate (m : Module) (table : Replacements) : Except Refusal (List CompiledItem) :=
  (Lower.module_ m table).map fun items => items.map (·.compiled)

/-- A source read as a tree, with the diagnostics of its tokens and, behind them, of its grammar. -/
def readModule (file : SourceFile) : Option Module × Diagnostics :=
  let lexed := lex file.text
  let parsed := parse lexed.tokens
  (parsed.module?,
    (Diagnostics.ofFaults file lexed.faults).extend (Diagnostics.ofFaults file parsed.faults))

/-- Compiles a source to one piece of text for each top-level item. -/
def compileSource (fileName source : String) (table : Replacements) :
    Except CompileError (List CompiledItem) :=
  let file : SourceFile := ⟨fileName, dedent source⟩
  match readModule file with
  | (some m, faults) =>
    if faults.hasErrors then .error (.malformed faults)
    else match translate m table with
      | .ok items => .ok items
      | .error refusal => .error (.unsupported (refusal.diagnose file))
  | (none, faults) => .error (.malformed faults)

end ViewSync
