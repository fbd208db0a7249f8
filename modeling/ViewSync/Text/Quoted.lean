import ViewSync.Text.Unprintable

/-!
# ViewSync.Text.Quoted

The quoted form in which a text is shown inside a message: between double quotes, with `\0`, `\t`,
`\r`, `\n`, the quote and the backslash escaped, and every unprintable character by its code point
in braces.
-/

namespace ViewSync.Text

/-- One character of a quoted text. -/
def quotedChar (c : Char) : List Char :=
  if c = '\x00' then ['\\', '0']
  else if c = '\t' then ['\\', 't']
  else if c = '\r' then ['\\', 'r']
  else if c = '\n' then ['\\', 'n']
  else if c = '"' then ['\\', '"']
  else if c = '\\' then ['\\', '\\']
  else if isUnprintable c then
    ['\\', 'u', '\x7b'] ++ Nat.toDigits 16 c.toNat ++ ['\x7d']
  else [c]

/-- A text between double quotes. -/
def quoted (s : String) : String :=
  String.ofList ('"' :: s.toList.flatMap quotedChar ++ ['"'])

end ViewSync.Text
