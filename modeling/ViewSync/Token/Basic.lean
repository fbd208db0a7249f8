import ViewSync.Decimal.Layout
import ViewSync.Source.Span
import ViewSync.Token.Keyword
import ViewSync.Tree.Operator

/-!
# ViewSync.Token.Basic

The tokens of a view source. Four kinds carry the layout: the end of a logical line, the two changes
of indentation and the end of the source; they have no text of their own.
-/

namespace ViewSync

/-- Operators, brackets and punctuation. -/
inductive Symbol where
  | plus
  | minus
  | star
  | doubleStar
  | slash
  | doubleSlash
  | percent
  | pipe
  | amp
  | caret
  | tilde
  | shiftLeft
  | shiftRight
  | eqEq
  | notEq
  | less
  | greater
  | lessEq
  | greaterEq
  | eq
  | leftParen
  | rightParen
  | leftBracket
  | rightBracket
  | leftBrace
  | rightBrace
  | comma
  | colon
  | dot
  | at
  | arrow
deriving DecidableEq, Repr

namespace Symbol

/-- The symbol as written in a view source. -/
def text : Symbol → String
  | .plus => "+"
  | .minus => "-"
  | .star => "*"
  | .doubleStar => "**"
  | .slash => "/"
  | .doubleSlash => "//"
  | .percent => "%"
  | .pipe => "|"
  | .amp => "&"
  | .caret => "^"
  | .tilde => "~"
  | .shiftLeft => "<<"
  | .shiftRight => ">>"
  | .eqEq => "=="
  | .notEq => "!="
  | .less => "<"
  | .greater => ">"
  | .lessEq => "<="
  | .greaterEq => ">="
  | .eq => "="
  | .leftParen => "("
  | .rightParen => ")"
  | .leftBracket => "["
  | .rightBracket => "]"
  | .leftBrace => "\x7b"
  | .rightBrace => "\x7d"
  | .comma => ","
  | .colon => ":"
  | .dot => "."
  | .at => "@"
  | .arrow => "->"

end Symbol

/-- What a token is. -/
inductive TokenKind where
  /-- A whole number. -/
  | int (value : Int)
  /-- A number with a fraction or an exponent, or a whole number beyond 64 bits. -/
  | float (value : Float)
  /-- The content of a string literal, escapes resolved. -/
  | str (content : String)
  | identifier (name : String)
  | keyword (word : Keyword)
  /-- A word that is recognized only to be refused. -/
  | reserved (word : String)
  | symbol (symbol : Symbol)
  /-- An operator with an equals sign after it. -/
  | augAssign (op : BinaryOp)
  /-- The end of a logical line. -/
  | newline
  | indent
  | dedent
  | eof
deriving DecidableEq

namespace TokenKind

/-- How messages name a token. -/
def render : TokenKind → String
  | .int value => toString value
  | .float value => Decimal.literalText value
  | .str content => "\"" ++ content ++ "\""
  | .identifier name => name
  | .keyword w => w.word
  | .reserved w => w
  | .symbol s => s.text
  | .augAssign op => op.symbol ++ "="
  | .newline => "newline"
  | .indent => "indent"
  | .dedent => "dedent"
  | .eof => "end of file"

/-- The token of a word that is not an identifier. -/
def ofWord? (word : String) : Option TokenKind :=
  match Keyword.ofWord? word with
  | some w => some (.keyword w)
  | none => if reservedWords.contains word then some (.reserved word) else none

/-- The token of any word. -/
def ofWord (word : String) : TokenKind :=
  (ofWord? word).getD (.identifier word)

/-- Keywords and reserved words. -/
def isKeyword : TokenKind → Bool
  | .keyword _ => true
  | .reserved _ => true
  | _ => false

/-- Tokens that have no text of their own. -/
def isLayout : TokenKind → Bool
  | .newline => true
  | .indent => true
  | .dedent => true
  | .eof => true
  | _ => false

end TokenKind

/-- A token and its place in the source. -/
structure Token where
  kind : TokenKind
  span : Span
deriving DecidableEq

end ViewSync
