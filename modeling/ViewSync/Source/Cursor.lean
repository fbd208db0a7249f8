import ViewSync.Source.Span

/-!
# ViewSync.Source.Cursor

A place in a text that is being read: the characters ahead, and the position of the first of them.
Every reader hands on a cursor with no more characters ahead than it was given.
-/

namespace ViewSync

/-- The characters ahead and the position where they start. -/
structure Cursor where
  rest : List Char
  pos : Pos
deriving DecidableEq, Repr

namespace Cursor

/-- The start of a text. -/
def start (text : String) : Cursor :=
  ⟨text.toList, ⟨1, 1⟩⟩

/-- The cursor behind the next `n` characters. -/
def advance : Nat → Cursor → Cursor
  | 0, cur => cur
  | n + 1, cur =>
    match cur.rest with
    | [] => cur
    | c :: cs => advance n ⟨cs, cur.pos.after c⟩

/-- The cursor at the first character ahead that does not satisfy `p`. -/
def skipWhile (p : Char → Bool) (cur : Cursor) : Cursor :=
  cur.advance (cur.rest.takeWhile p).length

/-- The span from a start position up to the last byte before the cursor. -/
def spanFrom (cur : Cursor) (start : Pos) : Span :=
  ⟨start, ⟨cur.pos.line, max (cur.pos.col - 1) 1⟩⟩

@[simp] theorem advance_zero (cur : Cursor) : cur.advance 0 = cur := rfl

@[simp] theorem rest_advance (n : Nat) (cur : Cursor) :
    (cur.advance n).rest = cur.rest.drop n := by
  induction n generalizing cur with
  | zero => rfl
  | succ n ih =>
    rw [advance]
    split
    · rename_i h; simp [h]
    · rename_i c cs h; simp [h, ih]

theorem length_rest_advance_lt {n : Nat} {cur : Cursor} (hn : 0 < n) (hc : cur.rest ≠ []) :
    (cur.advance n).rest.length < cur.rest.length := by
  have := List.length_pos_iff.mpr hc
  simp only [rest_advance, List.length_drop]
  omega

theorem length_rest_skipWhile_le (p : Char → Bool) (cur : Cursor) :
    (cur.skipWhile p).rest.length ≤ cur.rest.length := by
  simp [skipWhile]

end Cursor

end ViewSync
