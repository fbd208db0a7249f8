/-!
# ViewSync.Text.Lines

Two ways to cut a text into lines.

`rows` cuts at every newline and keeps what follows the last one, so that a text always has at
least one row: this is how positions count lines. `lines` reads a newline, or a carriage return
with the newline after it, as the end of a line, so that a text that ends with a newline has no
further line after it.
-/

namespace ViewSync.Text

/-- The rows of a text: the pieces between its newlines. -/
def rows : List Char → List (List Char)
  | [] => [[]]
  | c :: cs =>
    if c = '\n' then [] :: rows cs
    else match rows cs with
      | [] => [[c]]
      | row :: rest => (c :: row) :: rest

/-- A row without the carriage returns at its end. -/
def stripReturns (row : List Char) : List Char :=
  (row.reverse.dropWhile (· == '\r')).reverse

/-- The lines of a text, without their terminators. -/
def lines : List Char → List (List Char)
  | [] => []
  | '\n' :: cs => [] :: lines cs
  | '\r' :: '\n' :: cs => [] :: lines cs
  | c :: cs => match lines cs with
    | [] => [[c]]
    | line :: rest => (c :: line) :: rest

/-- Lines written one after another, each with a newline at its end. -/
def unlines (ls : List (List Char)) : List Char :=
  ls.flatMap (· ++ ['\n'])

theorem rows_ne_nil (cs : List Char) : rows cs ≠ [] := by
  cases cs with
  | nil => simp [rows]
  | cons c cs =>
    unfold rows
    split
    · simp
    · split <;> simp

end ViewSync.Text
