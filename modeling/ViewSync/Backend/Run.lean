import ViewSync.Backend.Act

/-!
# ViewSync.Backend.Run

Operations that may call code of the program. Such an operation looks at the state, acts, and ends with a
value or with a panic, or it runs out of the calls it was given; errors are ordinary values. A panic leaves
the state as it was when it happened, and what an operation opened is closed on its way out.

An operation is kept as the tree of its looks and acts. Carried out in a state it has an ending and a last
state, and the list of its acts tells its whole course: the state at each point is what the acts up to
there make of the first one.
-/

namespace ViewSync

/-- How an operation ends. -/
inductive Ending (α : Type) where
  | value (a : α)
  | panicked (p : Panic)
  /-- More nested calls or more timers than allowed. -/
  | exhausted

/-- An operation on the state of the backend. -/
inductive Run (Code Store α : Type) where
  | ended (ending : Ending α)
  /-- Looks at the state and goes on. -/
  | look (next : Backend Code Store → Run Code Store α)
  /-- Acts and goes on. -/
  | act (a : Act Code Store) (next : Run Code Store α)

namespace Run

variable {Code Store α β : Type}

/-! ## Carrying out -/

/-- The ending and the last state. -/
def finish : Run Code Store α → Backend Code Store → Ending α × Backend Code Store
  | .ended ending, b => (ending, b)
  | .look next, b => (next b).finish b
  | .act a next, b => next.finish (a.apply b)

/-- The acts, in order. -/
def acts : Run Code Store α → Backend Code Store → List (Act Code Store)
  | .ended _, _ => []
  | .look next, b => (next b).acts b
  | .act a next, b => a :: next.acts (a.apply b)

/-! ## One after another -/

/-- Goes on after an operation, however it ends. -/
def andThen : Run Code Store α → (Ending α → Run Code Store β) → Run Code Store β
  | .ended ending, f => f ending
  | .look next, f => .look fun b => (next b).andThen f
  | .act a next, f => .act a (next.andThen f)

/-- An operation that does nothing. -/
protected def pure (a : α) : Run Code Store α := .ended (.value a)

/-- Panics. -/
def panic (p : Panic) : Run Code Store α := .ended (.panicked p)

/-- Runs out of calls. -/
def exhaust : Run Code Store α := .ended .exhausted

/-- One operation after another; the second one runs only after a value. -/
protected def bind (x : Run Code Store α) (f : α → Run Code Store β) : Run Code Store β :=
  x.andThen fun
    | .value a => f a
    | .panicked p => panic p
    | .exhausted => exhaust

instance : Monad (Run Code Store) where
  pure := Run.pure
  bind := Run.bind

/-! ## Single looks and acts -/

/-- Reads the state. -/
def read (f : Backend Code Store → α) : Run Code Store α :=
  .look fun b => .ended (.value (f b))

/-- Carries out an act, with an answer. -/
def step (a : Act Code Store) (answer : Backend Code Store → α) : Run Code Store α :=
  .look fun b => .act a (.ended (.value (answer b)))

/-- Carries out an act that has no answer. -/
def modify (a : Act Code Store) : Run Code Store Unit := step a fun _ => ()

/-- Carries out an act that may fail. -/
def attempt {ε : Type} (a : Act Code Store)
    (f : Backend Code Store → Except ε (Backend Code Store)) : Run Code Store (Except ε Unit) :=
  step a fun b => (f b).map fun _ => ()

/-! ## Panics, calls and activations -/

/-- Catches a panic. -/
def catchPanic (x : Run Code Store α) : Run Code Store (Except Panic α) :=
  x.andThen fun
    | .value a => Run.pure (.ok a)
    | .panicked p => Run.pure (.error p)
    | .exhausted => exhaust

/-- Cleans up after a panic. -/
def onPanic (x : Run Code Store α) (cleanup : Act Code Store) : Run Code Store α :=
  x.andThen fun
    | .panicked p => .act cleanup (panic p)
    | ending => .ended ending

/-- Runs a callback. What the program's state is afterwards, `leave` makes of the state before and the state
at the end, however the callback ends. -/
def calling (leave : Store → Store → Store) (x : Run Code Store α) : Run Code Store α :=
  .look fun before => x.andThen fun ending =>
    .look fun after => .act (.keep (leave before.store after.store)) (.ended ending)

/-- Runs an operation inside an activation of a session, which ends with it. -/
def inside (s : SessionId) (x : Run Code Store α) : Run Code Store α :=
  .look fun b => .act (.enter s false)
    (x.andThen fun ending => .act (.leave (b.enter s false).1) (.ended ending))

end Run

/-- What the code of a program does when it is called. Bodies are code that a session, a batch, a
debouncer or a periodic task runs. -/
structure Callbacks (Code : Type) (M : Type → Type) where
  /-- The view of a kind of component. -/
  view : Code → ViewType
  /-- Sets the first values of a component. -/
  init : Code → ComponentId → M (Except ComponentError Unit)
  /-- Looks at changes before they are made: it may edit them, or refuse them with a reason. -/
  adjust : Code → ComponentId → Fields → M (Except String Fields)
  /-- Answers a request from the other end. -/
  request : Code → ComponentId → Json → M (Except Failure Unit)
  /-- Learns which fields of a component changed. -/
  listener : Code → ComponentId → List String → M Unit
  /-- Runs when a timer is due. -/
  task : Code → M Unit
  body : Code → M (Except Failure Json)

/-- The same callbacks in another form. -/
def Callbacks.map {Code : Type} {M N : Type → Type} (f : {α : Type} → M α → N α)
    (calls : Callbacks Code M) : Callbacks Code N where
  view := calls.view
  init code c := f (calls.init code c)
  adjust code c changes := f (calls.adjust code c changes)
  request code c payload := f (calls.request code c payload)
  listener code c changed := f (calls.listener code c changed)
  task code := f (calls.task code)
  body code := f (calls.body code)

end ViewSync
