import ViewSync.Json.Printer

/-!
# ViewSync.Wire.Change

Change sets: new values for the fields of a component, in an order. A key that ends with `__append` or
`__remove` is a list action on the field in front of it. Resolving a change set puts the list that results
next to every action, so that whoever sees the changes sees both; the action keys themselves are never
state.
-/

namespace ViewSync

/-- What is done to a list. -/
inductive ListAction where
  | append
  | remove
deriving DecidableEq, Repr

/-- The word for a list action. -/
def ListAction.word : ListAction → String
  | .append => "append"
  | .remove => "remove"

/-- The key of an action on a field. -/
def actionKey (field : String) (action : ListAction) : String :=
  field ++ "__" ++ action.word

/-- The text in front of an ending. -/
def stripEnd? (ending : List Char) (text : List Char) : Option (List Char) :=
  if ending.isSuffixOf text then some (text.take (text.length - ending.length)) else none

/-- The field of an action key, if the key is one for the given action. -/
def actionField? (action : ListAction) (key : String) : Option String :=
  match stripEnd? ("__" ++ action.word).toList key.toList with
  | some (c :: cs) => some (String.ofList (c :: cs))
  | _ => none

/-- The field and the action of an action key. -/
def parseActionKey? (key : String) : Option (String × ListAction) :=
  match actionField? .append key with
  | some field => some (field, .append)
  | none => (actionField? .remove key).map fun field => (field, .remove)

/-- Whether a key is an action key. -/
def isActionKey (key : String) : Bool :=
  (parseActionKey? key).isSome

/-- Why a change set cannot be resolved. -/
inductive ChangeError where
  | unknownField (field : String)
  | notAList (field : String)
  | notInList (field : String) (value : Json)
  /-- A field and an action on it in one change set. -/
  | keyCollision (field : String)

/-- A list without the first item that equals a value. -/
def removeFirst? (value : Json) : List Json → Option (List Json)
  | [] => none
  | item :: rest =>
    if item.same value then some rest else (removeFirst? value rest).map (item :: ·)

/-- A list after an action. -/
def ListAction.run (action : ListAction) (field : String) (value : Json) (items : List Json) :
    Except ChangeError (List Json) :=
  match action with
  | .append => .ok (items ++ [value])
  | .remove =>
    match removeFirst? value items with
    | some rest => .ok rest
    | none => .error (.notInList field value)

/-- The list that an action works on: the result of an earlier action, or the field itself. -/
def listFor (fields resolved : Fields) (field : String) : Except ChangeError (List Json) :=
  match resolved.get? field with
  | some (.arr items) => .ok items
  | _ =>
    match fields.get? field with
    | some (.arr items) => .ok items
    | some _ => .error (.notAList field)
    | none => .error (.unknownField field)

/-- Resolves one key; `resolved` is what the keys before it have become. -/
def resolveKey (fields changes resolved : Fields) (key : String) (value : Json) :
    Except ChangeError Fields :=
  match parseActionKey? key with
  | none => .ok (resolved.put key value)
  | some (field, action) =>
    if changes.has field then .error (.keyCollision field)
    else do
      let items ← action.run field value (← listFor fields resolved field)
      return (resolved.put key value).put field (.arr items)

/-- Resolves keys one after another. -/
def resolveKeys (fields changes : Fields) : Fields → Fields → Except ChangeError Fields
  | resolved, [] => .ok resolved
  | resolved, (key, value) :: rest => do
    resolveKeys fields changes (← resolveKey fields changes resolved key value) rest

/-- A change set with the resulting list next to every action. -/
def resolve (fields changes : Fields) : Except ChangeError Fields :=
  resolveKeys fields changes [] changes

/-- Fields after a change set; action keys are left out. -/
def applyChanges (fields changes : Fields) : Fields :=
  fields.putAll (changes.filter fun change => !isActionKey change.1)

end ViewSync
