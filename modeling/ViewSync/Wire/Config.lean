import ViewSync.Json.Printer
import ViewSync.Json.Typed

/-!
# ViewSync.Wire.Config

The settings of a session. Every setting has a default, so that a document names only what it changes; it
may also be an array of the settings in their order, as many as are given.
-/

namespace ViewSync

/-- The settings of a session. -/
structure SessionConfig where
  /-- Show failures of handlers in the view. -/
  renderDiagnostics : Bool := true
  /-- The number of characters of a failure that are shown. -/
  diagnosticLimit : Nat := 4096
  /-- The window of a debouncer, in milliseconds. -/
  debounceMs : Nat := 10
deriving DecidableEq, Repr

namespace SessionConfig

/-- The settings that have been read. -/
structure Partial where
  renderDiagnostics : Option Bool
  diagnosticLimit : Option Nat
  debounceMs : Option Nat

/-- The settings with defaults for what was not read. -/
def Partial.finish (p : Partial) : SessionConfig where
  renderDiagnostics := p.renderDiagnostics.getD true
  diagnosticLimit := p.diagnosticLimit.getD 4096
  debounceMs := p.debounceMs.getD 10

/-- Reads a number of characters. -/
def readCount (inp : Json.Input) : Json.Read Nat :=
  Json.readNat Decimal.maxNat64 "usize" inp

/-- Reads a number of milliseconds. -/
def readMs (inp : Json.Input) : Json.Read Nat :=
  Json.readNat Decimal.maxNat64 "u64" inp

/-- Reads the setting under a key; other keys are passed over. -/
def member (p : Partial) (key : String) (inp : Json.Input) :
    Except Json.Error (Partial × Json.Input) :=
  match key with
  | "render_diagnostics" =>
    Json.once key p.renderDiagnostics Json.readBool (fun v => { p with renderDiagnostics := some v }) inp
  | "diagnostic_limit" =>
    Json.once key p.diagnosticLimit readCount (fun v => { p with diagnosticLimit := some v }) inp
  | "debounce_ms" =>
    Json.once key p.debounceMs readMs (fun v => { p with debounceMs := some v }) inp
  | _ => do return (p, ← Json.skipValue (← Json.colon inp))

/-- Reads settings as an array. -/
def readItems (inp : Json.Input) : Except Json.Error (Partial × Json.Input) := do
  let (render, next) ← Json.readNext true Json.readBool inp
  let (limit, next) ← Json.readNext render.isNone readCount next
  let (ms, next) ← Json.readNext render.isNone readMs next
  return (⟨render, limit, ms⟩, ← Json.endList next)

/-- Reads settings. -/
def read (inp : Json.Input) : Except Json.Error (SessionConfig × Json.Input) := do
  let inp := inp.skipSpace
  let (p, next) ← match inp.rest with
    | '[' :: _ => readItems (inp.advance 1)
    | _ => Json.readObject Json.maxDepth Json.readString "struct SessionConfig" member ⟨none, none, none⟩ inp
  return (p.finish, next)

/-- The settings of a text. -/
def decode (text : String) : Except Json.Error SessionConfig :=
  Json.decode read text

/-- The JSON form of settings. -/
def toJson (config : SessionConfig) : Json :=
  .obj
    [("render_diagnostics", .bool config.renderDiagnostics),
     ("diagnostic_limit", .int config.diagnosticLimit),
     ("debounce_ms", .int config.debounceMs)]

/-- The text of settings. -/
def encode (config : SessionConfig) : String :=
  config.toJson.render

end SessionConfig

end ViewSync
