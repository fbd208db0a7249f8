import ViewSync.Json.Printer
import ViewSync.Json.Typed

/-!
# ViewSync.Wire.Message

The frames between the two ends: JSON objects with the kind of the message under `type`. The fields of a
frame may come in any order, with others among them; a frame may also be an array of the kind and the
fields in their order. The fields are looked at after the whole value has been read.
-/

namespace ViewSync

/-- The number of a component. -/
abbrev ComponentId := Nat

/-- A message from one end to the other. -/
inductive Message where
  /-- Makes a compiled view known under its reference. -/
  | define (viewRef name source : String)
  /-- Makes an instance of a view. -/
  | create (id : ComponentId) (viewRef : String)
  /-- Changes the state of an instance. -/
  | change (id : ComponentId) (changes : Fields)
  /-- Removes an instance. -/
  | delete (id : ComponentId)
  /-- Asks for something, from an instance. -/
  | request (id : ComponentId) (payload : Json)

namespace Message

/-! ## Kinds -/

/-- The kinds of messages. -/
inductive Kind where
  | define
  | create
  | change
  | delete
  | request
deriving DecidableEq, Repr

/-- The kind of a message. -/
def kind : Message → Kind
  | .define .. => .define
  | .create .. => .create
  | .change .. => .change
  | .delete .. => .delete
  | .request .. => .request

/-- The name of a kind on the wire. -/
def Kind.word : Kind → String
  | .define => "class"
  | .create => "new"
  | .change => "state_change"
  | .delete => "delete"
  | .request => "user_event"

/-- The name of a kind in messages about the length of its fields. -/
def Kind.shape : Kind → String
  | .define => "RegisterType"
  | .create => "Instantiate"
  | .change => "Apply"
  | .delete => "Destroy"
  | .request => "Request"

/-- All kinds. -/
def Kind.all : List Kind :=
  [.define, .create, .change, .delete, .request]

/-! ## Writing -/

/-- The fields of a message, in their order. -/
def fields : Message → List (String × Json)
  | .define viewRef name source =>
    [("clss", .str viewRef), ("name", .str name), ("defn", .str source)]
  | .create id viewRef => [("comp_id", .int id), ("clss", .str viewRef)]
  | .change id changes => [("comp_id", .int id), ("state_change", .obj changes)]
  | .delete id => [("comp_id", .int id)]
  | .request id payload => [("comp_id", .int id), ("user_event", payload)]

/-- The JSON form of a message. -/
def toJson (m : Message) : Json :=
  .obj (("type", .str m.kind.word) :: m.fields)

/-- The text of a message. -/
def encode (m : Message) : String :=
  m.toJson.render

/-! ## Fields -/

/-- What a field has to hold. -/
inductive FieldType where
  | id
  | text
  | members
  | any

/-- Whether a value is of the type of its field. -/
def FieldType.check (type : FieldType) (v : Json) : Except Json.Cause Unit :=
  match type, v with
  | .id, _ => if (v.natOf? Decimal.maxNat64).isSome then .ok () else .error (Json.notNat "u64" v)
  | .text, .str _ => .ok ()
  | .text, _ => .error (.invalidType v.found "a string")
  | .members, .obj _ => .ok ()
  | .members, _ => .error (.invalidType v.found "a map")
  | .any, _ => .ok ()

/-- The fields of a kind, in their order. -/
def Kind.layout : Kind → List (String × FieldType)
  | .define => [("clss", .text), ("name", .text), ("defn", .text)]
  | .create => [("comp_id", .id), ("clss", .text)]
  | .change => [("comp_id", .id), ("state_change", .members)]
  | .delete => [("comp_id", .id)]
  | .request => [("comp_id", .id), ("user_event", .any)]

/-- The message of a kind with the given values for its fields. -/
def ofValues? : Kind → List Json → Option Message
  | .define, [.str viewRef, .str name, .str source] => some (.define viewRef name source)
  | .create, [.int id, .str viewRef] => some (.create id.toNat viewRef)
  | .change, [.int id, .obj changes] => some (.change id.toNat changes)
  | .delete, [.int id] => some (.delete id.toNat)
  | .request, [.int id, payload] => some (.request id.toNat payload)
  | _, _ => none

/-- Takes the fields of a layout out of members, which may hold others too. -/
def collect (layout : List (String × FieldType)) :
    List (String × Json) → List (String × Json) → Except Json.Cause (List (String × Json))
  | seen, [] => .ok seen
  | seen, (key, v) :: rest =>
    match layout.find? (·.1 == key) with
    | none => collect layout seen rest
    | some (_, type) =>
      if seen.any (·.1 == key) then .error (.duplicateField key)
      else do
        type.check v
        collect layout (seen ++ [(key, v)]) rest

/-- The values of a layout among its collected fields. -/
def inOrder (seen : List (String × Json)) :
    List (String × FieldType) → Except Json.Cause (List Json)
  | [] => .ok []
  | (name, _) :: rest =>
    match seen.find? (·.1 == name) with
    | none => .error (.missingField name)
    | some (_, v) => do return v :: (← inOrder seen rest)

/-- The values of a layout from a sequence; `count` items were taken before. -/
def inSequence (short : String) :
    Nat → List (String × FieldType) → List Json → Except Json.Cause (List Json)
  | _, [], [] => .ok []
  | count, [], extra => .error (.tooLong (count + extra.length) count)
  | count, _ :: _, [] => .error (.tooShort count short)
  | count, (_, type) :: layout, v :: rest => do
    type.check v
    return v :: (← inSequence short (count + 1) layout rest)

/-! ## Reading -/

/-- The fields of a frame before they are looked at. -/
inductive Content where
  | members (entries : List (String × Json))
  | items (values : List Json)

/-- The message of a kind with some content. -/
def ofContent (kind : Kind) (content : Content) : Except Json.Cause Message := do
  let values ← match content with
    | .members entries => do inOrder (← collect kind.layout [] entries) kind.layout
    | .items values =>
      let short := "struct variant Message::" ++ kind.shape ++ " with "
        ++ Json.Cause.elements kind.layout.length
      inSequence short 0 kind.layout values
  match ofValues? kind values with
  | some m => return m
  | none => throw (.missingField "type")

/-- The names of the kinds. -/
def kindNames : List (String × Kind) :=
  Kind.all.map fun k => (k.word, k)

/-- Reads a member of a frame: its kind, or a field to be looked at later. -/
def readMember (acc : Option Kind × List (String × Json)) (key : String) (inp : Json.Input) :
    Except Json.Error ((Option Kind × List (String × Json)) × Json.Input) := do
  if key = "type" then
    if acc.1.isSome then throw (.at_ (.duplicateField key) (Json.closingPlace inp))
    let (kind, next) ← Json.readName kindNames (← Json.colon inp)
    return ((some kind, acc.2), next)
  else
    let (v, next) ← Json.readValue (Json.maxDepth - 1) (← Json.colon inp)
    return ((acc.1, acc.2 ++ [(key, v)]), next)

/-- Reads the kind and the content of a frame. -/
def readContent (inp : Json.Input) : Except Json.Error ((Kind × Content) × Json.Input) := do
  let inp := inp.skipSpace
  match inp.rest with
  | '\x7b' :: cs =>
    let ((kind, entries), next) ←
      Json.readMembers Json.readString readMember (cs.length + 1) true (none, []) (inp.advance 1)
    match kind with
    | some kind => return ((kind, .members entries), next)
    | none => next.error (.missingField "type")
  | '[' :: cs =>
    match ← Json.nextItem true (inp.advance 1) with
    | (false, next) => (← Json.endList next).error (.missingField "type")
    | (true, next) =>
      let (kind, next) ← Json.readName kindNames next
      let (values, next) ←
        Json.readItems (Json.readValue (Json.maxDepth - 1)) (cs.length + 1) false next
      return ((kind, .items values), next)
  | _ => Json.mismatch "internally tagged enum Message" inp

/-- The message of a text. -/
def decode (text : String) : Except Json.Error Message := do
  let ((kind, content), next) ← readContent (.start text)
  match ofContent kind content with
  | .error cause => throw (.ofValue cause)
  | .ok m =>
    Json.endText next
    return m

end Message

/-! ## References -/

/-- The value by which state refers to a component. -/
def componentRef (id : ComponentId) : Json :=
  .obj [("comp_id", .int id)]

/-- The component that a value refers to. -/
def componentOfRef? (v : Json) : Option ComponentId :=
  match v with
  | .obj [(name, value)] => if name = "comp_id" then value.natOf? Decimal.maxNat64 else none
  | _ => none

end ViewSync
