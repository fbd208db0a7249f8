import ViewSync.Json.Printer
import ViewSync.Json.Typed
import ViewSync.Source.Diagnostic

/-!
# ViewSync.Source.DiagnosticJson

The JSON form of diagnostics. The four numbers of the span stand among the other fields; a suggestion is
left out when there is none. The fields are read in any order, and other fields are passed over.
-/

namespace ViewSync

/-- The greatest line or column number. -/
def maxNat32 : Nat := 0xffffffff

/-- The greatest number of a code. -/
def maxNat16 : Nat := 0xffff

namespace Span

/-- The names of the numbers of a span. -/
def fieldNames : List String := ["line", "column", "end_line", "end_column"]

/-- The fields of a span. -/
def toFields (s : Span) : Fields :=
  [("line", .int s.first.line), ("column", .int s.first.col), ("end_line", .int s.last.line),
   ("end_column", .int s.last.col)]

/-- Takes the numbers of a span out of fields, which may be others too. -/
def collect : List (String × Nat) → List (String × Json) → Except Json.Cause (List (String × Nat))
  | seen, [] => .ok seen
  | seen, (name, v) :: rest =>
    if name ∉ fieldNames then collect seen rest
    else if seen.any (·.1 == name) then .error (.duplicateField name)
    else
      match v.natOf? maxNat32 with
      | some n => collect (seen ++ [(name, n)]) rest
      | none => .error (Json.notNat "u32" v)

/-- One number of a span among those that were taken. -/
def numberIn (seen : List (String × Nat)) (name : String) : Except Json.Cause Nat :=
  match seen.find? (·.1 == name) with
  | some (_, n) => .ok n
  | none => .error (.missingField name)

/-- The span among other fields. -/
def ofFields (fields : List (String × Json)) : Except Json.Cause Span := do
  let seen ← collect [] fields
  let line ← numberIn seen "line"
  let col ← numberIn seen "column"
  let endLine ← numberIn seen "end_line"
  let endCol ← numberIn seen "end_column"
  return .ofNumbers line col endLine endCol

/-- The JSON form of a span. -/
def toJson (s : Span) : Json :=
  .obj s.toFields

end Span

namespace Diagnostic

/-- The words for severities. -/
def severities : List (String × Severity) :=
  [Severity.error, .warning].map fun s => (s.word, s)

/-- The words for categories. -/
def categories : List (String × Category) :=
  [Category.malformed, .unsupported, .scope].map fun c => (c.word, c)

/-- The JSON form of a diagnostic. -/
def toJson (d : Diagnostic) : Json :=
  .obj <|
    [("file", .str d.file), ("code", .int d.code.number), ("severity", .str d.severity.word),
      ("category", .str d.category.word), ("message", .str d.message)]
    ++ d.span.toFields ++ [("source_line", .str d.sourceLine)]
    ++ match d.suggestion with
      | none => []
      | some s => [("suggestion", .str s)]

/-- The fields of a diagnostic that have been read. -/
structure Partial where
  file : Option String
  code : Option Nat
  severity : Option Severity
  category : Option Category
  message : Option String
  sourceLine : Option String
  suggestion : Option (Option String)
  /-- All other fields, those of the span among them. -/
  others : List (String × Json)

namespace Partial

/-- Nothing has been read. -/
def empty : Partial := ⟨none, none, none, none, none, none, none, []⟩

/-- Reads the field under a key. -/
def member (depth : Nat) (p : Partial) (key : String) (inp : Json.Input) :
    Except Json.Error (Partial × Json.Input) :=
  match key with
  | "file" => Json.once key p.file (Json.readText "a string") (fun v => { p with file := some v }) inp
  | "code" => Json.once key p.code (Json.readNat maxNat16 "u16") (fun v => { p with code := some v }) inp
  | "severity" =>
    Json.once key p.severity (Json.readChoice depth severities) (fun v => { p with severity := some v }) inp
  | "category" =>
    Json.once key p.category (Json.readChoice depth categories) (fun v => { p with category := some v }) inp
  | "message" =>
    Json.once key p.message (Json.readText "a string") (fun v => { p with message := some v }) inp
  | "source_line" =>
    Json.once key p.sourceLine (Json.readText "a string") (fun v => { p with sourceLine := some v }) inp
  | "suggestion" =>
    Json.once key p.suggestion (Json.readOptional (Json.readText "a string"))
      (fun v => { p with suggestion := some v }) inp
  | _ => do
    let (v, next) ← Json.readValue depth (← Json.colon inp)
    return ({ p with others := p.others ++ [(key, v)] }, next)

/-- The diagnostic, when all its fields have been read. The span is looked for behind the other fields. -/
def finish (p : Partial) : Except Json.Error Diagnostic := do
  let file ← Json.required "file" p.file
  let code ← Json.required "code" p.code
  let severity ← Json.required "severity" p.severity
  let category ← Json.required "category" p.category
  let message ← Json.required "message" p.message
  let sourceLine ← Json.required "source_line" p.sourceLine
  let span ← (Span.ofFields p.others).mapError .ofValue
  return ⟨file, ⟨code⟩, severity, category, message, span, sourceLine, p.suggestion.getD none⟩

end Partial

/-- Reads a diagnostic. -/
def read (depth : Nat) (inp : Json.Input) : Except Json.Error (Diagnostic × Json.Input) := do
  let (p, next) ←
    Json.readObject depth Json.readString "struct SourceError" (Partial.member (depth - 1)) .empty inp
  Json.finished p.finish next

/-- The text of a diagnostic. -/
def encode (d : Diagnostic) : String :=
  d.toJson.render

/-- The diagnostic of a text. -/
def decode (text : String) : Except Json.Error Diagnostic :=
  Json.decode (read Json.maxDepth) text

end Diagnostic

namespace Diagnostics

/-- The JSON form of a collection. -/
def toJson (ds : Diagnostics) : Json :=
  .obj [("errors", .arr (ds.stored.map Diagnostic.toJson)), ("total_errors", .int ds.total)]

/-- Reads the diagnostics of a collection. -/
def readStored (depth : Nat) : Json.Input → Json.Read (List Diagnostic) :=
  Json.readArray depth (Diagnostic.read (depth - 1))

/-- Reads the number of diagnostics. -/
def readTotal : Json.Input → Json.Read Nat :=
  Json.readNat Decimal.maxNat64 "usize"

/-- Reads the field under a key; other keys are passed over. -/
def member (depth : Nat) (p : Option (List Diagnostic) × Option Nat) (key : String)
    (inp : Json.Input) :
    Except Json.Error ((Option (List Diagnostic) × Option Nat) × Json.Input) :=
  match key with
  | "errors" => Json.once key p.1 (readStored depth) (fun v => (some v, p.2)) inp
  | "total_errors" => Json.once key p.2 readTotal (fun v => (p.1, some v)) inp
  | _ => do return (p, ← Json.skipValue (← Json.colon inp))

/-- The collection, when its fields have been read. -/
def finish (p : Option (List Diagnostic) × Option Nat) : Except Json.Error Diagnostics :=
  return ⟨← Json.required "errors" p.1, ← Json.required "total_errors" p.2⟩

/-- An item of a collection that is written as an array. -/
def item {α : Type} (index : Nat) (item : Option α) : Except Json.Error α :=
  match item with
  | some a => .ok a
  | none => .error (.ofValue (.tooShort index "struct CompileErrors with 2 elements"))

/-- Reads a collection that is written as an array of its fields in their order. -/
def readItems (depth : Nat) (inp : Json.Input) : Except Json.Error (Diagnostics × Json.Input) := do
  let (stored, next) ← Json.readNext true (readStored depth) inp
  let (total, next) ← Json.readNext stored.isNone readTotal next
  Json.finished (do return ⟨← item 0 stored, ← item 1 total⟩) (← Json.endList next)

/-- Reads a collection. -/
def read (depth : Nat) (inp : Json.Input) : Except Json.Error (Diagnostics × Json.Input) := do
  let inp := inp.skipSpace
  match inp.rest with
  | '[' :: _ =>
    if depth = 0 then inp.peekError .recursionLimit else readItems (depth - 1) (inp.advance 1)
  | _ =>
    let (p, next) ←
      Json.readObject depth Json.readString "struct CompileErrors" (member (depth - 1)) (none, none) inp
    Json.finished (finish p) next

/-- The text of a collection. -/
def encode (ds : Diagnostics) : String :=
  ds.toJson.render

/-- The collection of a text. -/
def decode (text : String) : Except Json.Error Diagnostics :=
  Json.decode (read Json.maxDepth) text

end Diagnostics

end ViewSync
