import ViewSync.Source.Span
import ViewSync.Source.File

/-!
# ViewSync.Source.Diagnostic

Diagnostics of the view compiler: a numbered fault at a place in a source, with the line it is on.
The code decides the category. A collection of diagnostics stores the first twenty and counts all.
-/

namespace ViewSync

/-- How grave a diagnostic is. -/
inductive Severity where
  | error
  | warning
deriving DecidableEq, Repr

/-- The word for a severity. -/
def Severity.word : Severity → String
  | .error => "error"
  | .warning => "warning"

/-- What kind of fault a diagnostic reports. -/
inductive Category where
  | malformed
  | unsupported
  | scope
deriving DecidableEq, Repr

/-- The word for a category. -/
def Category.word : Category → String
  | .malformed => "syntax"
  | .unsupported => "unsupported"
  | .scope => "scope"

/-- The number of a diagnostic. -/
structure Code where
  number : Nat
deriving DecidableEq, Repr

namespace Code

/-! ## Malformed source: 100 to 199 -/

def unexpectedToken : Code := ⟨100⟩
def unterminatedString : Code := ⟨101⟩
def inconsistentIndent : Code := ⟨102⟩
def unexpectedCharacter : Code := ⟨103⟩
def expectedItem : Code := ⟨104⟩
def nestingTooDeep : Code := ⟨105⟩

/-! ## Constructs that are not compiled: 200 to 299 -/

def unsupportedNode : Code := ⟨200⟩
def unsupportedOperator : Code := ⟨201⟩
def unsupportedTarget : Code := ⟨202⟩
def unsupportedKey : Code := ⟨203⟩

/-! ## Scopes: 300 to 399 -/

def mixedDeclaration : Code := ⟨300⟩

/-- The category that a code belongs to; a code outside the known ranges counts as malformed source. -/
def category (code : Code) : Category :=
  if 200 ≤ code.number ∧ code.number ≤ 299 then .unsupported
  else if 300 ≤ code.number ∧ code.number ≤ 399 then .scope
  else .malformed

/-- A code is written with an `E` before its number. -/
def render (code : Code) : String :=
  "E" ++ toString code.number

end Code

/-- A fault found in a view source. -/
structure Diagnostic where
  file : String
  code : Code
  severity : Severity
  category : Category
  message : String
  span : Span
  sourceLine : String
  suggestion : Option String
deriving DecidableEq, Repr

namespace Diagnostic

/-- A diagnostic of severity `error`, in the category of its code. -/
def new (file : String) (code : Code) (message : String) (span : Span) (sourceLine : String)
    (suggestion : Option String) : Diagnostic :=
  ⟨file, code, .error, code.category, message, span, sourceLine, suggestion⟩

/-- A diagnostic about a source, with the line on which its span starts. -/
def located (file : SourceFile) (code : Code) (message : String) (span : Span)
    (suggestion : Option String) : Diagnostic :=
  new file.name code message span (file.lineText span.first.line) suggestion

/-- File, position, code, category and message on one line. -/
def render (d : Diagnostic) : String :=
  d.file ++ ":" ++ d.span.render ++ ": " ++ d.code.render ++ " [" ++ d.category.word ++ "] "
    ++ d.message

end Diagnostic

/-- How many diagnostics a collection stores. -/
def maxDiagnostics : Nat := 20

/-- Diagnostics of one run, in the order found: the first ones, and the number of all. -/
structure Diagnostics where
  stored : List Diagnostic
  total : Nat
deriving DecidableEq, Repr

namespace Diagnostics

/-- The collection of a run without faults. -/
def empty : Diagnostics := ⟨[], 0⟩

/-- Whether any fault was found. -/
def hasErrors (ds : Diagnostics) : Bool :=
  0 < ds.total

/-- Adds one diagnostic: it is stored while there is room, and counted in any case. -/
def push (ds : Diagnostics) (d : Diagnostic) : Diagnostics :=
  ⟨if ds.stored.length < maxDiagnostics then ds.stored ++ [d] else ds.stored, ds.total + 1⟩

/-- Adds the diagnostics of another collection, the ones that it did not store included. -/
def extend (ds other : Diagnostics) : Diagnostics :=
  let merged := other.stored.foldl push ds
  ⟨merged.stored, merged.total + (other.total - other.stored.length)⟩

/-- The first diagnostic of the run. -/
def first? (ds : Diagnostics) : Option Diagnostic :=
  ds.stored.head?

/-- One line for each stored diagnostic, and the number of the others. -/
def render (ds : Diagnostics) : String :=
  let text := "\n".intercalate (ds.stored.map Diagnostic.render)
  if ds.stored.length < ds.total then
    text ++ "\n... and " ++ toString (ds.total - ds.stored.length) ++ " more"
  else text

end Diagnostics

/-- A fault at a place, before it is tied to a source: what went wrong decides code, message and
suggestion. -/
structure Fault (Cause : Type) where
  cause : Cause
  span : Span
deriving DecidableEq, Repr

/-- How the faults of a stage are reported. -/
class Reportable (Cause : Type) where
  code : Cause → Code
  message : Cause → String
  suggestion : Cause → Option String

/-- The diagnostic of a fault in a source. -/
def Fault.diagnose {Cause : Type} [Reportable Cause] (file : SourceFile) (fault : Fault Cause) :
    Diagnostic :=
  .located file (Reportable.code fault.cause) (Reportable.message fault.cause) fault.span
    (Reportable.suggestion fault.cause)

/-- The faults of a stage as diagnostics of a source. Only the stored ones need their text. -/
def Diagnostics.ofFaults {Cause : Type} [Reportable Cause] (file : SourceFile)
    (faults : List (Fault Cause)) : Diagnostics :=
  ⟨(faults.take maxDiagnostics).map (·.diagnose file), faults.length⟩

end ViewSync
