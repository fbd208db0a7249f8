/-!
# ViewSync.Json.Value

JSON values. Whole numbers and doubles are different kinds: `1` is not `1.0`. The members of an object
have an order, which is part of the value but not of its meaning: two values are `same` when they agree
up to the order of members, and doubles are compared as numbers.
-/

namespace ViewSync

/-- A JSON value. -/
inductive Json where
  | null
  | bool (value : Bool)
  | int (value : Int)
  | float (value : Float)
  | str (text : String)
  | arr (items : List Json)
  | obj (members : List (String × Json))
deriving Inhabited

/-- Named values in an order, with no name twice: the members of an object. -/
abbrev Fields := List (String × Json)

namespace Fields

/-- The value under a name. -/
def get? (fields : Fields) (name : String) : Option Json :=
  (fields.find? (·.1 == name)).map (·.2)

/-- Whether there is a value under a name. -/
def has (fields : Fields) (name : String) : Bool :=
  fields.any (·.1 == name)

/-- Sets the value under a name: a name that is there keeps its place, a new one goes to the end. -/
def put : Fields → String → Json → Fields
  | [], name, value => [(name, value)]
  | (n, v) :: rest, name, value =>
    if n = name then (n, value) :: rest else (n, v) :: put rest name value

/-- Sets several values, one after another. -/
def putAll (fields new : Fields) : Fields :=
  new.foldl (fun acc field => acc.put field.1 field.2) fields

/-- Removes a name; the others keep their order. -/
def erase (fields : Fields) (name : String) : Fields :=
  fields.filter (·.1 != name)

/-- The names in order. -/
def names (fields : Fields) : List String :=
  fields.map (·.1)

/-- Fields made of pairs; of several with one name the first gives the place, the last the value. -/
def ofPairs (pairs : List (String × Json)) : Fields :=
  putAll [] pairs

end Fields

namespace Json

mutual

/-- Equality of values: order of members does not count, doubles compare as numbers. -/
def same : Json → Json → Bool
  | .null, .null => true
  | .bool a, .bool b => a == b
  | .int a, .int b => a == b
  | .float a, .float b => a == b
  | .str a, .str b => a == b
  | .arr as, .arr bs => sameItems as bs
  | .obj as, .obj bs => as.length == bs.length && sameMembers as bs
  | _, _ => false

/-- Equality of arrays. -/
def sameItems : List Json → List Json → Bool
  | [], [] => true
  | a :: as, b :: bs => same a b && sameItems as bs
  | _, _ => false

/-- Every member on the left has an equal one of its name on the right. -/
def sameMembers : List (String × Json) → List (String × Json) → Bool
  | [], _ => true
  | (name, a) :: as, bs =>
    (match Fields.get? bs name with
      | some b => same a b
      | none => false) && sameMembers as bs

end

/-- The whole number, if the value is one. -/
def asInt? : Json → Option Int
  | .int n => some n
  | _ => none

/-- The whole number, if the value is one in the range of signed 64-bit integers. -/
def asInt64? : Json → Option Int
  | .int n => if -0x8000000000000000 ≤ n ∧ n < 0x8000000000000000 then some n else none
  | _ => none

/-- The text, if the value is one. -/
def asStr? : Json → Option String
  | .str s => some s
  | _ => none

/-- The items, if the value is an array. -/
def asArr? : Json → Option (List Json)
  | .arr items => some items
  | _ => none

/-- The members, if the value is an object. -/
def asObj? : Json → Option Fields
  | .obj members => some members
  | _ => none

end Json

end ViewSync
