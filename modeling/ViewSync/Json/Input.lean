import ViewSync.Json.Error

/-!
# ViewSync.Json.Input

The part of a JSON text that is still to be read, with the place that has been reached.
-/

namespace ViewSync.Json

/-- The characters ahead and the place reached. -/
structure Input where
  rest : List Char
  place : Place

/-- What a reader gives: a value and the input behind it. -/
abbrev Read (α : Type) := Except Error (α × Input)

namespace Input

/-- The start of a text. -/
def start (text : String) : Input :=
  ⟨text.toList, ⟨1, 0⟩⟩

/-- The input behind the next `n` characters. -/
def advance : Nat → Input → Input
  | 0, inp => inp
  | n + 1, inp =>
    match inp.rest with
    | [] => inp
    | c :: cs =>
      advance n ⟨cs, if c = '\n' then ⟨inp.place.line + 1, 0⟩
        else ⟨inp.place.line, inp.place.col + c.utf8Size⟩⟩

/-- The place when the next byte, if there is one, counts as read. -/
def peekPlace (inp : Input) : Place :=
  match inp.rest with
  | [] => inp.place
  | c :: _ => if c = '\n' then ⟨inp.place.line + 1, 0⟩ else ⟨inp.place.line, inp.place.col + 1⟩

/-- White space between the parts of a JSON text. -/
def isSpace (c : Char) : Bool :=
  c == ' ' || c == '\n' || c == '\t' || c == '\r'

/-- The input behind the white space ahead. -/
def skipSpace (inp : Input) : Input :=
  inp.advance (inp.rest.takeWhile isSpace).length

/-- A failure at the next byte. -/
def peekError {α : Type} (inp : Input) (cause : Cause) : Except Error α :=
  .error (.at_ cause inp.peekPlace)

/-- A failure at the place reached. -/
def error {α : Type} (inp : Input) (cause : Cause) : Except Error α :=
  .error (.at_ cause inp.place)

/-- Whether the next character is a decimal digit. -/
def atDigit (inp : Input) : Bool :=
  match inp.rest with
  | c :: _ => c.isDigit
  | [] => false

@[simp] theorem rest_advance (n : Nat) (inp : Input) :
    (inp.advance n).rest = inp.rest.drop n := by
  induction n generalizing inp with
  | zero => rfl
  | succ n ih =>
    rw [advance]
    split
    · rename_i h; simp [h]
    · rename_i c cs h; simp [h, ih]

end Input

end ViewSync.Json
