import ViewSync.Json.Number
import ViewSync.Json.Text

/-!
# ViewSync.Json.Reader

Reading JSON texts. Arrays and objects are read by steps (`nextItem`, `endList`, `nextKey`, `colon`,
`endObject`) from which the readers of particular shapes are made as well; `readValue` reads any value
that nests no deeper than a given number of arrays and objects, and `skipValue` passes over one.
-/

namespace ViewSync.Json

/-! ## Steps through arrays and objects -/

/-- Whether another item follows in an array; `first` says that none was read yet. -/
def nextItem (first : Bool) (inp : Input) : Read Bool :=
  let inp := inp.skipSpace
  match inp.rest with
  | [] => inp.error .eofList
  | c :: _ =>
    if c = ']' then .ok (false, inp)
    else if c = ',' ∧ !first then
      let inp := (inp.advance 1).skipSpace
      match inp.rest with
      | [] => inp.error .eofValue
      | d :: _ => if d = ']' then inp.peekError .trailingComma else .ok (true, inp)
    else if first then .ok (true, inp)
    else inp.peekError .expectedListEnd

/-- The end of an array. -/
def endList (inp : Input) : Except Error Input :=
  let inp := inp.skipSpace
  match inp.rest with
  | [] => inp.error .eofList
  | c :: _ =>
    if c = ']' then .ok (inp.advance 1)
    else if c = ',' then
      let behind := (inp.advance 1).skipSpace
      match behind.rest with
      | ']' :: _ => behind.peekError .trailingComma
      | _ => behind.peekError .trailingCharacters
    else inp.peekError .trailingCharacters

/-- The next key of an object, or `none` at its end; `first` says that none was read yet. -/
def nextKey (readKey : Input → Read String) (first : Bool) (inp : Input) : Read (Option String) :=
  let inp := inp.skipSpace
  let key (inp : Input) : Read (Option String) :=
    match inp.rest with
    | [] => inp.error .eofValue
    | c :: _ =>
      if c = '"' then (readKey (inp.advance 1)).map fun (k, next) => (some k, next)
      else if c = '\x7d' then inp.peekError .trailingComma
      else inp.peekError .keyMustBeString
  match inp.rest with
  | [] => inp.error .eofObject
  | c :: _ =>
    if c = '\x7d' then .ok (none, inp)
    else if first then key inp
    else if c = ',' then key (inp.advance 1).skipSpace
    else inp.peekError .expectedObjectEnd

/-- The colon between a key and its value. -/
def colon (inp : Input) : Except Error Input :=
  let inp := inp.skipSpace
  match inp.rest with
  | [] => inp.error .eofObject
  | c :: _ => if c = ':' then .ok (inp.advance 1) else inp.peekError .expectedColon

/-- The end of an object. -/
def endObject (inp : Input) : Except Error Input :=
  let inp := inp.skipSpace
  match inp.rest with
  | [] => inp.error .eofObject
  | c :: _ =>
    if c = '\x7d' then .ok (inp.advance 1)
    else if c = ',' then inp.peekError .trailingComma
    else inp.peekError .trailingCharacters

/-- The place behind the end of an object, if it follows. -/
def closingPlace (inp : Input) : Place :=
  let inp := inp.skipSpace
  match inp.rest with
  | '\x7d' :: _ => (inp.advance 1).place
  | _ => inp.place

/-- Nothing but white space is left. -/
def endText (inp : Input) : Except Error Unit :=
  let inp := inp.skipSpace
  if inp.rest.isEmpty then .ok () else inp.peekError .trailingCharacters

/-- Reads the remaining items of an array and its end. Every item takes at least one character, so the
number of characters bounds the number of items. -/
def readItems {α : Type} (item : Input → Read α) :
    Nat → Bool → Input → Except Error (List α × Input)
  | 0, _, inp => inp.error .eofList
  | bound + 1, first, inp => do
    match ← nextItem first inp with
    | (false, inp) => return ([], ← endList inp)
    | (true, inp) =>
      let (v, inp) ← item inp
      let (vs, inp) ← readItems item bound false inp
      return (v :: vs, inp)

/-- Reads the remaining members of an object and its end; `member` reads what follows a key. -/
def readMembers {α : Type} (readKey : Input → Read String) (member : α → String → Input → Read α) :
    Nat → Bool → α → Input → Except Error (α × Input)
  | 0, _, _, inp => inp.error .eofObject
  | bound + 1, first, acc, inp => do
    match ← nextKey readKey first inp with
    | (none, inp) => return (acc, ← endObject inp)
    | (some key, inp) =>
      let (acc, inp) ← member acc key inp
      readMembers readKey member bound false acc inp

/-! ## Literals -/

/-- The remaining letters of `null`, `true` or `false`. -/
def readIdent : List Char → Input → Except Error Input
  | [], inp => .ok inp
  | c :: cs, inp =>
    match inp.rest with
    | [] => inp.error .eofValue
    | d :: _ => if d = c then readIdent cs (inp.advance 1) else inp.peekError .expectedIdent

/-- How numbers and strings are read. -/
structure Leaves where
  number : Bool → Input → Read Json
  string : Input → Read String

/-- Numbers and strings for their values. -/
def Leaves.exact : Leaves := ⟨readNumber, readString⟩

/-- Numbers and strings that are only passed over. -/
def Leaves.skim : Leaves := ⟨fun _ => skimNumber, skimString⟩

/-- A value that is no array and no object, if one starts here. -/
def readScalar? (leaves : Leaves) (inp : Input) : Option (Read Json) :=
  match inp.rest with
  | [] => none
  | c :: _ =>
    if c = 'n' then
      some <| (readIdent ['u', 'l', 'l'] (inp.advance 1)).map fun next => (.null, next)
    else if c = 't' then
      some <| (readIdent ['r', 'u', 'e'] (inp.advance 1)).map fun next => (.bool true, next)
    else if c = 'f' then
      some <| (readIdent ['a', 'l', 's', 'e'] (inp.advance 1)).map fun next => (.bool false, next)
    else if c = '-' then some (leaves.number true (inp.advance 1))
    else if c.isDigit then some (leaves.number false inp)
    else if c = '"' then
      some <| (leaves.string (inp.advance 1)).map fun (s, next) => (.str s, next)
    else none

/-! ## Values -/

/-- A value whose arrays and objects hold what `nested` reads; without it they are too deep. -/
def readWith (leaves : Leaves) (nested : Option (Input → Read Json)) (inp : Input) : Read Json :=
  let inp := inp.skipSpace
  match readScalar? leaves inp with
  | some result => result
  | none =>
    match inp.rest with
    | [] => inp.error .eofValue
    | c :: cs =>
      if c = '[' then
        match nested with
        | none => inp.peekError .recursionLimit
        | some item =>
          (readItems item (cs.length + 1) true (inp.advance 1)).map fun (vs, next) => (.arr vs, next)
      else if c = '\x7b' then
        match nested with
        | none => inp.peekError .recursionLimit
        | some item =>
          let member (acc : Fields) (key : String) (inp : Input) :
              Except Error (Fields × Input) := do
            let (v, next) ← item (← colon inp)
            return (acc.put key v, next)
          (readMembers leaves.string member (cs.length + 1) true [] (inp.advance 1)).map
            fun (fields, next) => (.obj fields, next)
      else inp.peekError .expectedValue

/-- A value that nests at most the given number of arrays and objects. -/
def readNested (leaves : Leaves) : Nat → Input → Read Json
  | 0 => readWith leaves none
  | depth + 1 => readWith leaves (some (readNested leaves depth))

/-- A value that nests at most `depth` arrays and objects. -/
def readValue (depth : Nat) (inp : Input) : Read Json :=
  readNested .exact depth inp

/-- Passes over a value, however deep. -/
def skipValue (inp : Input) : Except Error Input :=
  (readNested .skim inp.rest.length inp).map (·.2)

/-- How many arrays and objects a text may nest on the wire. -/
def maxDepth : Nat := 127

/-- The value of a whole text. -/
def parse (depth : Nat) (text : String) : Except Error Json := do
  let (v, inp) ← readValue depth (.start text)
  endText inp
  return v

/-- The value of a text of any depth, if it is a JSON text. -/
def parse? (text : String) : Option Json :=
  match parse text.length text with
  | .ok v => some v
  | .error _ => none

end ViewSync.Json
