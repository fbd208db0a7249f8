import ViewSync.Text.Lines

/-!
# ViewSync.Source.File

A named view source, kept for its lines: a diagnostic shows the line that it is about.
-/

namespace ViewSync

/-- A view source and the name under which diagnostics speak of it. -/
structure SourceFile where
  name : String
  text : String
deriving DecidableEq, Repr

namespace SourceFile

/-- The lines of a source; an empty source has one empty line. -/
def rows (file : SourceFile) : List (List Char) :=
  Text.rows file.text.toList

/-- How many lines the source has. -/
def lineCount (file : SourceFile) : Nat :=
  file.rows.length

/-- The line of the given number, counted from one, without its terminator. -/
def line? (file : SourceFile) (number : Nat) : Option String :=
  match number with
  | 0 => none
  | n + 1 => file.rows[n]?.map fun row => String.ofList (Text.stripReturns row)

/-- The text that a diagnostic shows for a line: empty when there is no such line. -/
def lineText (file : SourceFile) (number : Nat) : String :=
  (file.line? number).getD ""

end SourceFile

end ViewSync
