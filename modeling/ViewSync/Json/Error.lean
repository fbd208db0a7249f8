import ViewSync.Decimal.Layout
import ViewSync.Text.Quoted

/-!
# ViewSync.Json.Error

Why a text is not read as the JSON value that is wanted: it is malformed, it ends too early, or it is
the JSON text of something else. Malformed texts name the place up to which they were read.
-/

namespace ViewSync.Json

/-- What a value is, as a message says it. -/
inductive Found where
  | null
  | bool (value : Bool)
  | int (value : Int)
  | float (value : Float)
  | str (text : String)
  | sequence
  | map

/-- The words for what was found. -/
def Found.render : Found → String
  | .null => "null"
  | .bool true => "boolean `true`"
  | .bool false => "boolean `false`"
  | .int n => "integer `" ++ toString n ++ "`"
  | .float x => "floating point `" ++ floatWords x ++ "`"
  | .str s => "string " ++ Text.quoted s
  | .sequence => "sequence"
  | .map => "map"
where
  floatWords (x : Float) : String := Decimal.json.finite x

/-- The kinds of failure. -/
inductive ErrorCategory where
  | malformed
  | eof
  | data
deriving DecidableEq, Repr

/-- The word for a kind of failure. -/
def ErrorCategory.word : ErrorCategory → String
  | .malformed => "syntax"
  | .eof => "eof"
  | .data => "data"

/-- Why reading failed. -/
inductive Cause where
  | expectedValue
  | expectedIdent
  | invalidNumber
  | numberOutOfRange
  | trailingCharacters
  | trailingComma
  | expectedListEnd
  | expectedObjectEnd
  | expectedColon
  | keyMustBeString
  | invalidEscape
  | hexEscapeEnd
  | loneSurrogate
  | controlCharacter
  | recursionLimit
  | eofValue
  | eofString
  | eofList
  | eofObject
  | missingField (name : String)
  | duplicateField (name : String)
  | unknownVariant (name : String) (known : List String)
  | invalidType (found : Found) (wanted : String)
  | invalidValue (found : Found) (wanted : String)
  /-- A sequence with too few elements for what is read from it. -/
  | tooShort (length : Nat) (wanted : String)
  /-- A sequence with more elements than were wanted. -/
  | tooLong (length wanted : Nat)

namespace Cause

/-- The kind of a failure. -/
def category : Cause → ErrorCategory
  | .eofValue | .eofString | .eofList | .eofObject => .eof
  | .missingField _ | .duplicateField _ | .unknownVariant .. | .invalidType .. | .invalidValue ..
  | .tooShort .. | .tooLong .. => .data
  | _ => .malformed

/-- A count of elements in words. -/
def elements (n : Nat) : String :=
  if n = 1 then "1 element" else toString n ++ " elements"

/-- The names that would have been known, in words. -/
def oneOf (known : List String) : String :=
  let quoted := known.map fun name => "`" ++ name ++ "`"
  match quoted with
  | [name] => name
  | [name, other] => name ++ " or " ++ other
  | names => "one of " ++ ", ".intercalate names

/-- The text of a failure, without its place. -/
def message : Cause → String
  | .expectedValue => "expected value"
  | .expectedIdent => "expected ident"
  | .invalidNumber => "invalid number"
  | .numberOutOfRange => "number out of range"
  | .trailingCharacters => "trailing characters"
  | .trailingComma => "trailing comma"
  | .expectedListEnd => "expected `,` or `]`"
  | .expectedObjectEnd => "expected `,` or `\x7d`"
  | .expectedColon => "expected `:`"
  | .keyMustBeString => "key must be a string"
  | .invalidEscape => "invalid escape"
  | .hexEscapeEnd => "unexpected end of hex escape"
  | .loneSurrogate => "lone leading surrogate in hex escape"
  | .controlCharacter => "control character (\\u0000-\\u001F) found while parsing a string"
  | .recursionLimit => "recursion limit exceeded"
  | .eofValue => "EOF while parsing a value"
  | .eofString => "EOF while parsing a string"
  | .eofList => "EOF while parsing a list"
  | .eofObject => "EOF while parsing an object"
  | .missingField name => "missing field `" ++ name ++ "`"
  | .duplicateField name => "duplicate field `" ++ name ++ "`"
  | .unknownVariant name known =>
    "unknown variant `" ++ name ++ "`, expected " ++ oneOf known
  | .invalidType found wanted => "invalid type: " ++ found.render ++ ", expected " ++ wanted
  | .invalidValue found wanted => "invalid value: " ++ found.render ++ ", expected " ++ wanted
  | .tooShort length wanted => "invalid length " ++ toString length ++ ", expected " ++ wanted
  | .tooLong length wanted =>
    "invalid length " ++ toString length ++ ", expected " ++ elements wanted ++ " in sequence"

end Cause

/-- How far a text has been read: the line, counted from one, and the bytes of that line. -/
structure Place where
  line : Nat
  col : Nat
deriving DecidableEq, Repr

/-- A failure, and the place where it was seen if it has one. -/
structure Error where
  cause : Cause
  place : Option Place

namespace Error

/-- A failure at a place. -/
def at_ (cause : Cause) (place : Place) : Error :=
  ⟨cause, some place⟩

/-- A failure of a value that was read in full. -/
def ofValue (cause : Cause) : Error :=
  ⟨cause, none⟩

/-- The failure at a place, unless it has one of its own. -/
def orAt (e : Error) (place : Place) : Error :=
  { e with place := e.place.or (some place) }

/-- The kind of a failure. -/
def category (e : Error) : ErrorCategory :=
  e.cause.category

/-- The text of a failure with its place. -/
def message (e : Error) : String :=
  e.cause.message ++ match e.place with
    | none => ""
    | some p => " at line " ++ toString p.line ++ " column " ++ toString p.col

end Error

end ViewSync.Json
