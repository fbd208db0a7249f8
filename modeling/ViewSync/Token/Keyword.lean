/-!
# ViewSync.Token.Keyword

The words of view sources that are never identifiers. The words of the first kind have a meaning of
their own in the grammar; those of the second kind are recognized so that a statement that starts
with one can be named when it is refused.
-/

namespace ViewSync

/-- Words with a place in the grammar. -/
inductive Keyword where
  | def_
  | class_
  | if_
  | elif
  | else_
  | for_
  | in_
  | while_
  | return_
  | del
  | pass
  | lambda
  | and
  | or
  | not
  | is
  | true
  | false
  | none
deriving DecidableEq, Repr

namespace Keyword

/-- The word as written in a view source. -/
def word : Keyword → String
  | .def_ => "def"
  | .class_ => "class"
  | .if_ => "if"
  | .elif => "elif"
  | .else_ => "else"
  | .for_ => "for"
  | .in_ => "in"
  | .while_ => "while"
  | .return_ => "return"
  | .del => "del"
  | .pass => "pass"
  | .lambda => "lambda"
  | .and => "and"
  | .or => "or"
  | .not => "not"
  | .is => "is"
  | .true => "True"
  | .false => "False"
  | .none => "None"

/-- All keywords. -/
def all : List Keyword :=
  [.def_, .class_, .if_, .elif, .else_, .for_, .in_, .while_, .return_, .del, .pass, .lambda, .and,
   .or, .not, .is, .true, .false, .none]

/-- The keyword with the given spelling. -/
def ofWord? (s : String) : Option Keyword :=
  all.find? (·.word == s)

end Keyword

/-- Words that are kept out of the grammar but recognized. -/
def reservedWords : List String :=
  ["with", "try", "except", "finally", "raise", "import", "from", "global", "nonlocal", "assert",
   "break", "continue", "async", "await", "yield", "as"]

end ViewSync
