import ViewSync.Backend.Callbacks.Update

/-!
# ViewSync.Backend.Callbacks.Lifecycle

The creation of components, with the code that sets their first values.
-/

namespace ViewSync.Callbacks

/-- The view of a kind. -/
def viewOf {Code : Type} {M : Type → Type} (calls : Callbacks Code M) : Kind Code → ViewType
  | .custom code => calls.view code
  | .diagnostic _ => FailureView.viewType

variable {Code Store : Type} (calls : Callbacks Code (Run Code Store))

/-- Shows a text in a component. -/
def showText (c : ComponentId) (text : String) : Run Code Store (Except ComponentError Unit) := do
  let shown ← Run.read (·.shownText c text)
  calls.update c [("text", .str shown)] {}

/-- Sets the first values of a component. -/
def initKind (kind : Kind Code) (c : ComponentId) : Run Code Store (Except ComponentError Unit) :=
  match kind with
  | .custom code => calls.init code c
  | .diagnostic text => calls.showText c text

/-- Brings a component to life: its first values are told as one change. One that cannot be initialized
is destroyed. -/
def setUp (kind : Kind Code) (c : ComponentId) :
    Run Code Store (Except ComponentError ComponentId) := do
  match ← calls.batch c id (calls.initKind kind c) with
  | .error e =>
    Run.modify (.abandon c)
    return .error e
  | .ok () =>
    Run.modify (.activate c)
    return .ok c

/-- Creates a component in a session. -/
def create (s : SessionId) (kind : Kind Code) :
    Run Code Store (Except ComponentError ComponentId) :=
  Run.inside s do
    match (calls.viewOf kind).definition.1 with
    | .error e => return .error (.compile e)
    | .ok definition =>
      match ← Run.step (.enroll s kind definition) fun b => (b.enroll s kind definition).1 with
      | .error e => return .error e
      | .ok id => calls.setUp kind id

/-- Creates a component in the current session. -/
def createCurrent (kind : Kind Code) : Run Code Store (Except ComponentError ComponentId) := do
  match ← Run.read (·.current?) with
  | none => return .error .noActiveSession
  | some s => calls.create s kind

end ViewSync.Callbacks
