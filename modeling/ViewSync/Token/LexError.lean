import ViewSync.Source.Diagnostic

/-!
# ViewSync.Token.LexError

What can be wrong with the characters of a view source, and how it is reported.
-/

namespace ViewSync

/-- A fault of the source text below the level of the grammar. -/
inductive LexError where
  /-- A character that starts no token. -/
  | unexpected (c : Char)
  /-- A backslash outside a string that is not at the end of its line. -/
  | strayBackslash
  /-- A string that its line or the source ends before its closing quotes. -/
  | unterminatedString
  /-- A numbered escape with too few digits or with no character behind it. -/
  | badEscape (kind : Char)
  /-- A hexadecimal literal without digits or beyond 64 bits. -/
  | badHex (digits : String)
  /-- A line that returns to a width at which no open block started. -/
  | unmatchedIndent
deriving DecidableEq, Repr

namespace LexError

def code : LexError → Code
  | .unexpected _ => .unexpectedCharacter
  | .strayBackslash => .unexpectedCharacter
  | .unterminatedString => .unterminatedString
  | .badEscape _ => .unexpectedCharacter
  | .badHex _ => .unexpectedToken
  | .unmatchedIndent => .inconsistentIndent

def message : LexError → String
  | .unexpected c => "Unexpected character '" ++ c.toString ++ "'"
  | .strayBackslash => "Unexpected character '\\' outside a string"
  | .unterminatedString => "Unterminated string literal"
  | .badEscape kind => "Invalid \\" ++ kind.toString ++ " escape"
  | .badHex digits => "Invalid hexadecimal literal '0x" ++ digits ++ "'"
  | .unmatchedIndent => "Unindent does not match any outer indentation level"

def suggestion : LexError → Option String
  | .unexpected '!' => some "Use 'not' for boolean negation, or '!=' for inequality"
  | .unexpected ';' => some "Put each statement on its own line"
  | _ => none

instance : Reportable LexError := ⟨code, message, suggestion⟩

end LexError

end ViewSync
