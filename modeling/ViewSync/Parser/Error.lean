import ViewSync.Source.Diagnostic
import ViewSync.Token.Basic

/-!
# ViewSync.Parser.Error

What can be wrong with the tokens of a view source, and how it is reported.
-/

namespace ViewSync

/-- How deep expressions may nest. -/
def maxNesting : Nat := 64

/-- A fault in the order of tokens. -/
inductive ParseError where
  | expected (wanted found : TokenKind)
  | expectedIdentifier (found : TokenKind)
  | expectedExpression (found : TokenKind)
  | expectedLineEnd (found : TokenKind)
  | expectedBlock
  /-- After decorators there must be a function or a class. -/
  | expectedDefinition (found : TokenKind)
  | unexpectedIndent
  /-- A word that starts no statement. -/
  | unexpectedWord (word : String)
  | generator
  | nestingTooDeep
deriving DecidableEq

namespace ParseError

def code : ParseError → Code
  | .expectedDefinition _ => .expectedItem
  | .unexpectedIndent => .inconsistentIndent
  | .nestingTooDeep => .nestingTooDeep
  | _ => .unexpectedToken

def message : ParseError → String
  | .expected wanted found => "expected '" ++ wanted.render ++ "', got '" ++ found.render ++ "'"
  | .expectedIdentifier found => "expected identifier, got '" ++ found.render ++ "'"
  | .expectedExpression found => "expected expression, got '" ++ found.render ++ "'"
  | .expectedLineEnd found => "expected end of line, got '" ++ found.render ++ "'"
  | .expectedBlock => "expected an indented block"
  | .expectedDefinition found =>
    "expected 'def' or 'class' after decorator, got '" ++ found.render ++ "'"
  | .unexpectedIndent => "unexpected indent"
  | .unexpectedWord word => "unexpected '" ++ word ++ "'"
  | .generator => "generator expressions are not part of the view language"
  | .nestingTooDeep => "maximum expression nesting depth is " ++ toString maxNesting

instance : Reportable ParseError := ⟨code, message, fun _ => none⟩

end ParseError

end ViewSync
