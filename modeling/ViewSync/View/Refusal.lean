import ViewSync.Source.Diagnostic

/-!
# ViewSync.View.Refusal

Why a tree is not compiled. Compilation stops at the first refusal and gives no partial output.
-/

namespace ViewSync

/-- A construct that is not compiled, and where it stands. -/
inductive Refusal where
  /-- A node outside the subset that is compiled. -/
  | node (name : String) (span : Span) (hint : Option String)
  /-- An operator without a counterpart. -/
  | operator (symbol : String) (span : Span)
  /-- A node that cannot be written to. -/
  | target (name : String) (span : Span)
  /-- A key of a dict that is neither a string nor a number. -/
  | key (name : String) (span : Span)
  /-- A loop target with both new and known names. -/
  | mixedDeclaration (names : List String) (span : Span)
deriving DecidableEq, Repr

namespace Refusal

/-- The code under which a refusal is reported. -/
def code : Refusal → Code
  | .node .. => .unsupportedNode
  | .operator .. => .unsupportedOperator
  | .target .. => .unsupportedTarget
  | .key .. => .unsupportedKey
  | .mixedDeclaration .. => .mixedDeclaration

/-- Where the refused construct stands. -/
def span : Refusal → Span
  | .node _ span _ => span
  | .operator _ span => span
  | .target _ span => span
  | .key _ span => span
  | .mixedDeclaration _ span => span

/-- What to write instead. -/
def hint? : Refusal → Option String
  | .node _ _ hint => hint
  | _ => none

/-- The text of a refusal. -/
def message : Refusal → String
  | .node name span hint =>
    "'" ++ name ++ "' nodes are not supported for transpilation (at " ++ span.render ++ ")"
      ++ match hint with
        | some text => ": " ++ text
        | none => ""
  | .operator symbol span =>
    "operator '" ++ symbol ++ "' is not supported for transpilation (at " ++ span.render ++ ")"
  | .target name span =>
    "'" ++ name ++ "' is not a valid assignment or loop target (at " ++ span.render ++ ")"
  | .key name span =>
    "dict keys must be string or number literals, found '" ++ name ++ "' (at " ++ span.render ++ ")"
  | .mixedDeclaration names span =>
    "loop target binds both new and existing names (" ++ ", ".intercalate names ++ ") (at "
      ++ span.render ++ ")"

/-- The diagnostic of a refusal in a source. -/
def diagnose (file : SourceFile) (refusal : Refusal) : Diagnostic :=
  .located file refusal.code refusal.message refusal.span refusal.hint?

end Refusal

end ViewSync
