/-!
# ViewSync.View.Replacements

Names that stand for given text in compiled views. Such a name counts as bound everywhere and is written
as its text wherever it appears; this is how `this` and the names of the host page reach the output.
-/

namespace ViewSync

/-- A table of names and the texts they are written as. -/
structure Replacements where
  entries : List (String × String)

namespace Replacements

/-- The table without entries. -/
def empty : Replacements := ⟨[]⟩

/-- The text for a name. -/
def get? (table : Replacements) (name : String) : Option String :=
  (table.entries.find? (·.1 == name)).map (·.2)

/-- Whether a name is in the table. -/
def contains (table : Replacements) (name : String) : Bool :=
  table.entries.any (·.1 == name)

/-- The number of names. -/
def size (table : Replacements) : Nat :=
  table.entries.length

/-- The table with one entry added or changed. -/
def insert (table : Replacements) (name text : String) : Replacements :=
  ⟨(name, text) :: table.entries.filter (·.1 != name)⟩

/-- The names that every view may use: `this`, `undefined` and `null`. -/
def default : Replacements :=
  ((empty.insert "this" "this").insert "undefined" "undefined").insert "null" "null"

/-- The text by which a name is written. -/
def identifier (table : Replacements) (name : String) : String :=
  (table.get? name).getD name

end Replacements

end ViewSync
