/-!
# ViewSync.Source.Span

Places in a view source. A position is a line and a column, both counted from one; a column counts
the bytes of the UTF-8 text. A span runs from a start position to an end position and holds both.
-/

namespace ViewSync

/-- A line and a column, both counted from one. Positions are ordered by line, then by column. -/
structure Pos where
  line : Nat
  col : Nat
deriving DecidableEq, Repr, Inhabited

namespace Pos

/-- The order of positions in a text. -/
def before (a b : Pos) : Bool :=
  a.line < b.line || (a.line == b.line && a.col < b.col)

/-- The earlier of two positions. -/
def earlier (a b : Pos) : Pos :=
  if b.before a then b else a

/-- The later of two positions. -/
def later (a b : Pos) : Pos :=
  if b.before a then a else b

/-- A position is written as its line and its column with a colon between them. -/
def render (p : Pos) : String :=
  toString p.line ++ ":" ++ toString p.col

/-- The position after a character that stands at `p`. -/
def after (p : Pos) (c : Char) : Pos :=
  if c = '\n' then ⟨p.line + 1, 1⟩ else ⟨p.line, p.col + c.utf8Size⟩

end Pos

/-- The part of a source from `first` up to and including `last`. -/
structure Span where
  first : Pos
  last : Pos
deriving DecidableEq, Repr, Inhabited

namespace Span

/-- A span of four numbers: line and column of the start, line and column of the end. -/
def ofNumbers (startLine startCol endLine endCol : Nat) : Span :=
  ⟨⟨startLine, startCol⟩, ⟨endLine, endCol⟩⟩

/-- The span of a single position. -/
def point (p : Pos) : Span :=
  ⟨p, p⟩

/-- The start of a source. -/
def origin : Span :=
  point ⟨1, 1⟩

/-- The least span that covers both. -/
def merge (a b : Span) : Span :=
  ⟨a.first.earlier b.first, a.last.later b.last⟩

/-- A span is named by its start. -/
def render (s : Span) : String :=
  s.first.render

end Span

end ViewSync
