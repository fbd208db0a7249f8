import ViewSync.Json.Reader

/-!
# ViewSync.Json.Typed

Readers of values of one type. A value of another type is read far enough to say what it is: a scalar in
full, an array or an object not at all.
-/

namespace ViewSync.Json

/-- What a value is called in a message. -/
def found : Json → Found
  | .null => .null
  | .bool b => .bool b
  | .int n => .int n
  | .float x => .float x
  | .str s => .str s
  | .arr _ => .sequence
  | .obj _ => .map

/-- A value of another type than the wanted one. The input stands at its first character. -/
def mismatch {α : Type} (wanted : String) (inp : Input) : Except Error α :=
  match readScalar? .exact inp with
  | some (.ok (v, next)) => next.error (.invalidType v.found wanted)
  | some (.error e) => .error e
  | none =>
    match inp.rest with
    | [] => inp.error .eofValue
    | c :: _ =>
      if c = '[' then inp.error (.invalidType .sequence wanted)
      else if c = '\x7b' then inp.error (.invalidType .map wanted)
      else inp.peekError .expectedValue

/-- A string. -/
def readText (wanted : String) (inp : Input) : Read String :=
  let inp := inp.skipSpace
  match inp.rest with
  | '"' :: _ => readString (inp.advance 1)
  | _ => mismatch wanted inp

/-- A truth value. -/
def readBool (inp : Input) : Read Bool :=
  let inp := inp.skipSpace
  match inp.rest with
  | 't' :: _ => (readIdent ['r', 'u', 'e'] (inp.advance 1)).map fun next => (true, next)
  | 'f' :: _ => (readIdent ['a', 'l', 's', 'e'] (inp.advance 1)).map fun next => (false, next)
  | _ => mismatch "a boolean" inp

/-- A whole number from zero up to `max`. -/
def natOf? (max : Nat) : Json → Option Nat
  | .int n => if 0 ≤ n ∧ n.toNat ≤ max then some n.toNat else none
  | _ => none

/-- Why a value is no number of the wanted type. -/
def notNat (wanted : String) : Json → Cause
  | .int n => .invalidValue (.int n) wanted
  | v => .invalidType v.found wanted

/-- A whole number from zero up to `max`. -/
def readNat (max : Nat) (wanted : String) (inp : Input) : Except Error (Nat × Input) := do
  let inp := inp.skipSpace
  let number (negative : Bool) (start : Input) : Except Error (Nat × Input) := do
    let (v, next) ← readNumber negative start
    match natOf? max v with
    | some n => return (n, next)
    | none => next.error (notNat wanted v)
  match inp.rest with
  | [] => inp.error .eofValue
  | c :: _ =>
    if c = '-' then number true (inp.advance 1)
    else if c.isDigit then number false inp
    else mismatch wanted inp

/-- A value, or `null` for none. -/
def readOptional {α : Type} (read : Input → Read α) (inp : Input) : Read (Option α) :=
  let inp := inp.skipSpace
  match inp.rest with
  | 'n' :: _ => (readIdent ['u', 'l', 'l'] (inp.advance 1)).map fun next => (none, next)
  | _ => (read inp).map fun (a, next) => (some a, next)

/-- One of several names. -/
def readName {α : Type} (names : List (String × α)) (inp : Input) : Except Error (α × Input) := do
  let (name, next) ← readText "variant identifier" inp
  match names.find? (·.1 == name) with
  | some (_, a) => return (a, next)
  | none => next.error (.unknownVariant name (names.map (·.1)))

/-- One of several names as the key of an object. -/
def readNameKey {α : Type} (names : List (String × α)) (inp : Input) : Except Error (α × Input) :=
  let inp := inp.skipSpace
  match inp.rest with
  | [] => inp.error .eofValue
  | c :: _ => if c = '"' then readName names inp else inp.peekError .keyMustBeString

/-- One of several names: as a string, or as an object with the name as its only key and `null` under
it. -/
def readChoice {α : Type} (depth : Nat) (names : List (String × α)) (inp : Input) :
    Except Error (α × Input) := do
  let inp := inp.skipSpace
  match inp.rest with
  | [] => inp.error .eofValue
  | c :: _ =>
    if c = '"' then readName names inp
    else if c = '\x7b' then
      if depth = 0 then inp.peekError .recursionLimit
      else
        let (a, next) ← readNameKey names (inp.advance 1)
        let value := (← colon next).skipSpace
        match value.rest with
        | 'n' :: _ =>
          let close := (← readIdent ['u', 'l', 'l'] (value.advance 1)).skipSpace
          match close.rest with
          | [] => close.error .eofObject
          | d :: _ => if d = '\x7d' then return (a, close.advance 1) else close.error .expectedValue
        | _ => mismatch "unit" value
    else inp.peekError .expectedValue

/-- An object, from what `member` makes of its members. -/
def readObject {α : Type} (depth : Nat) (readKey : Input → Read String) (wanted : String)
    (member : α → String → Input → Read α) (start : α) (inp : Input) : Read α :=
  let inp := inp.skipSpace
  match inp.rest with
  | '\x7b' :: cs =>
    if depth = 0 then inp.peekError .recursionLimit
    else readMembers readKey member (cs.length + 1) true start (inp.advance 1)
  | _ => mismatch wanted inp

/-- An array of items of one type. -/
def readArray {α : Type} (depth : Nat) (item : Input → Read α) (inp : Input) : Read (List α) :=
  let inp := inp.skipSpace
  match inp.rest with
  | '[' :: cs =>
    if depth = 0 then inp.peekError .recursionLimit
    else readItems item (cs.length + 1) true (inp.advance 1)
  | _ => mismatch "a sequence" inp

/-- The next item of an array, if there is one; `first` says that none was read yet. -/
def readNext {α : Type} (first : Bool) (read : Input → Read α) (inp : Input) :
    Except Error (Option α × Input) := do
  match ← nextItem first inp with
  | (false, next) => return (none, next)
  | (true, next) =>
    let (a, next) ← read next
    return (some a, next)

/-- A field that must not have been read before, and what becomes of it. -/
def once {α β : Type} (name : String) (seen : Option α) (read : Input → Read α) (set : α → β)
    (inp : Input) : Except Error (β × Input) :=
  match seen with
  | some _ => .error (.at_ (.duplicateField name) (closingPlace inp))
  | none => do
    let (a, next) ← read (← colon inp)
    return (set a, next)

/-- A field that must have been read. -/
def required {α : Type} (name : String) (seen : Option α) : Except Error α :=
  match seen with
  | some a => .ok a
  | none => .error (.ofValue (.missingField name))

/-- What has been made of the parts of an object or array that ends at `next`. -/
def finished {α : Type} (result : Except Error α) (next : Input) : Read α :=
  match result with
  | .ok a => .ok (a, next)
  | .error e => .error (e.orAt next.place)

/-- What a reader makes of a whole text. -/
def decode {α : Type} (read : Input → Read α) (text : String) : Except Error α := do
  let (a, inp) ← read (.start text)
  endText inp
  return a

end ViewSync.Json
