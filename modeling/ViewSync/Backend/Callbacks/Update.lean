import ViewSync.Backend.Run

/-!
# ViewSync.Backend.Callbacks.Update

Changes to components, with the code that they call. An update is adjusted by its component, stored and
sent, and then announced to the listeners that were there when it was stored. A batch is announced when it
is committed, all changes at once.
-/

namespace ViewSync.Callbacks

variable {Code Store : Type} (calls : Callbacks Code (Run Code Store))

/-! ## Announcements -/

/-- Calls listeners one after another. -/
def announce (c : ComponentId) (changed : List String) :
    List (Listener Code) → Run Code Store Unit
  | [] => pure ()
  | l :: rest => do
    if l.wants changed then calls.listener l.code c changed
    announce c changed rest

/-- Tells the listeners of changes, if there are any to tell of. -/
def announceAny (c : ComponentId) : Option (Delivery Code) → Run Code Store Unit
  | none => pure ()
  | some d => calls.announce c d.changes.names d.listeners

/-! ## Updates -/

/-- The adjustment that a kind makes. -/
def adjustKind (kind : Kind Code) (c : ComponentId) (changes : Fields) :
    Run Code Store (Except String Fields) :=
  match kind with
  | .custom code => calls.adjust code c changes
  | .diagnostic _ => pure (.ok changes)

/-- Changes as a component wants them: an active component adjusts them. -/
def adjusted (c : ComponentId) (changes : Fields) : Run Code Store (Except ComponentError Fields) := do
  match ← Run.read (·.component? c) with
  | none => return .error (.destroyed c)
  | some component =>
    match component.phase with
    | .destroyed => return .error (.destroyed c)
    | .constructing => return .ok changes
    | .active =>
      match ← calls.adjustKind component.kind c changes with
      | .ok changes => return .ok changes
      | .error reason => return .error (.aborted reason)

/-- Makes changes to a component. Nothing happens when there are none, before or after the adjustment. -/
def update (c : ComponentId) (changes : Fields) (options : UpdateOptions) :
    Run Code Store (Except ComponentError Unit) := do
  if changes.isEmpty then return .ok ()
  match ← calls.adjusted c changes with
  | .error e => return .error e
  | .ok changes =>
    if changes.isEmpty then return .ok ()
    match ← Run.step (.change c changes options) fun b => (b.change c changes options).map (·.1) with
    | .error e => return .error e
    | .ok delivery =>
      calls.announceAny c delivery
      return .ok ()

/-! ## Batches -/

/-- Commits the batch of a holder. -/
def commit (c : ComponentId) (holder : BatchHolder) : Run Code Store Unit := do
  let delivery ← Run.step (.commit c holder) fun b => (b.commit c holder).1
  calls.announceAny c delivery

/-- Runs an operation inside a batch, which is committed when it succeeds and dropped when it fails. -/
def batch {ε α : Type} (c : ComponentId) (fail : ComponentError → ε)
    (body : Run Code Store (Except ε α)) : Run Code Store (Except ε α) := do
  match ← Run.attempt (.openBatch c .scope {}) (·.openBatch c .scope {}) with
  | .error e => return .error (fail e)
  | .ok () =>
    match ← body.onPanic (.drop c .scope) with
    | .error e =>
      Run.modify (.drop c .scope)
      return .error e
    | .ok a =>
      calls.commit c .scope
      return .ok a

/-! ## Listeners -/

/-- Adds a listener; an immediate one is called at once for all fields. -/
def listen (c : ComponentId) (fields : Option (List String)) (immediate : Bool) (code : Code) :
    Run Code Store ListenerId := do
  match ← Run.step (.listen c fields code) fun b => (b.listen c fields code).1 with
  | none => return 0
  | some (listener, names) =>
    if immediate then calls.announce c names [listener]
    return listener.id

end ViewSync.Callbacks
