import ViewSync.Text.Lines
import ViewSync.Text.Range

/-!
# ViewSync.Source.Dedent

View sources are written as indented blocks inside other text. `dedent` removes the white space that
all non-blank lines start with and empties the blank ones; it writes one line for each line read.
-/

namespace ViewSync

/-- The longest text that both lines start with. -/
def commonStart : List Char → List Char → List Char
  | a :: as, b :: bs => if a = b then a :: commonStart as bs else []
  | _, _ => []

/-- The white space that all non-blank lines share at their start. -/
def sharedIndent (ls : List (List Char)) : List Char :=
  match (ls.filter fun l => !Text.isBlankLine l).map Text.leadingBlanks with
  | [] => []
  | indent :: rest => rest.foldl commonStart indent

/-- The lines of a source with the shared indent taken away and the blank ones emptied. -/
def dedentLines (ls : List (List Char)) : List (List Char) :=
  let indent := (sharedIndent ls).length
  ls.map fun l => if Text.isBlankLine l then [] else l.drop indent

/-- A source moved to the left edge. -/
def dedent (source : String) : String :=
  String.ofList (Text.unlines (dedentLines (Text.lines source.toList)))

end ViewSync
