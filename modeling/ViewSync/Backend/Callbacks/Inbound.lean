import ViewSync.Backend.Callbacks.Lifecycle

/-!
# ViewSync.Backend.Callbacks.Inbound

Frames that come in, and code of the program that runs inside a session. A failure or a panic of either
stays inside: the session shows it in a component and goes on.
-/

namespace ViewSync.Callbacks

variable {Code Store : Type} (calls : Callbacks Code (Run Code Store))

/-- Answers a request. -/
def requestKind (kind : Kind Code) (c : ComponentId) (payload : Json) :
    Run Code Store (Except Failure Unit) :=
  match kind with
  | .custom code => calls.request code c payload
  | .diagnostic _ => pure (.error (Failure.noRequests c))

/-- Answers a request to a component. -/
def handleRequest (c : ComponentId) (payload : Json) : Run Code Store (Except Failure Unit) := do
  match ← Run.read (·.component? c) with
  | none => return .error (.component (.destroyed c))
  | some component =>
    if component.phase = .destroyed then return .error (.component (.destroyed c))
    calls.requestKind component.kind c payload

/-- Reads a frame and takes the request in it to its component. -/
def dispatch (s : SessionId) (text : String) : Run Code Store (Except SessionError Unit) :=
  Run.inside s do
    match Message.decode text with
    | .error e => return .error (.codec e)
    | .ok (.request c payload) =>
      if (← Run.read fun b => (b.session s).arena.contains c) then
        match ← calls.handleRequest c payload with
        | .ok () => return .ok ()
        | .error e => return .error (.handler e.message)
      else return .error (.unknownComponent c)
    | .ok m => return .error (.unexpectedMessage m.kind)

/-- Shows a failure, in the component that showed the last one if it is still there. -/
def report (s : SessionId) (error : SessionError) : Run Code Store Unit := do
  let session ← Run.read (·.session s)
  if session.config.renderDiagnostics ∧ ¬ session.isClosed then
    match ← Run.read (·.shownIn? s) with
    | some c =>
      let _ ← calls.showText c error.message
      return ()
    | none =>
      match ← calls.create s (.diagnostic error.message) with
      | .error _ => return ()
      | .ok c => Run.modify (.showFailuresIn s c)

/-- Takes a frame. -/
def onMessage (s : SessionId) (text : String) : Run Code Store Unit :=
  Run.inside s do
    match ← (calls.dispatch s text).catchPanic with
    | .ok (.ok ()) => return ()
    | .ok (.error e) => calls.report s e
    | .error p => calls.report s (.panicked p.message)

/-- Runs code inside a session; there is no value when it fails. -/
def run (s : SessionId) (body : Run Code Store (Except Failure Json)) :
    Run Code Store (Option Json) :=
  Run.inside s do
    match ← body.catchPanic with
    | .ok (.ok v) => return some v
    | .ok (.error e) =>
      calls.report s (.handler e.message)
      return none
    | .error p =>
      calls.report s (.panicked p.message)
      return none

end ViewSync.Callbacks
