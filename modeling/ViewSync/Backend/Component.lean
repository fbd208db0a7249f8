import ViewSync.Backend.Error

/-!
# ViewSync.Backend.Component

A component: named values, and what is to happen when they change. A component is under construction,
active or destroyed. While a batch is open on it, changes are stored at once but kept back from the other
end and from listeners until the batch is closed.

`Component.write` is the step of an update in which state changes; what then has to be told, and to whom,
is a `Delivery`.
-/

namespace ViewSync

/-- The number of a session. -/
abbrev SessionId := Nat

/-- The number of a listener of a component. -/
abbrev ListenerId := Nat

/-- What a component is made by: the code of an application, or the text of a failure. -/
inductive Kind (Code : Type) where
  | custom (code : Code)
  /-- Shows the text of a failure. -/
  | diagnostic (text : String)

/-- Where a component is in its life. -/
inductive Phase where
  | constructing
  | active
  | destroyed
deriving DecidableEq, Repr

/-- The name of a phase. -/
def Phase.name : Phase → String
  | .constructing => "Constructing"
  | .active => "Active"
  | .destroyed => "Destroyed"

/-- Who is told of an update; the state changes in any case. -/
structure UpdateOptions where
  /-- Tell the other end. -/
  forward : Bool := true
  /-- Tell the listeners. -/
  notify : Bool := true
deriving DecidableEq, Repr

/-- The options of a change that the other end asked for. -/
def UpdateOptions.localOnly : UpdateOptions := ⟨false, true⟩

/-- Code that is called when fields change. -/
structure Listener (Code : Type) where
  id : ListenerId
  /-- The fields it is called for; all, if there is no list. -/
  fields : Option (List String)
  code : Code

/-- Whether a listener is called for a change of the given fields. -/
def Listener.wants {Code : Type} (l : Listener Code) (changed : List String) : Bool :=
  match l.fields with
  | none => true
  | some fields => changed.any fields.contains

/-- Who closes a batch: the operation that opened it, or the holder of a handle. -/
inductive BatchHolder where
  | scope
  | handle (number : Nat)
deriving DecidableEq, Repr

/-- An open batch: the changes kept back, and the options they will be told with. -/
structure Batch where
  holder : BatchHolder
  buffer : Fields
  options : UpdateOptions

/-- What is to be told of a change: to the other end, and to the listeners that were there. -/
structure Delivery (Code : Type) where
  changes : Fields
  options : UpdateOptions
  listeners : List (Listener Code)

/-- The state of a component. -/
structure Component (Code : Type) where
  kind : Kind Code
  session : SessionId
  fields : Fields
  listeners : List (Listener Code)
  nextListener : ListenerId
  batch : Option Batch
  phase : Phase

namespace Component

variable {Code : Type}

/-- A component under construction. -/
def new (kind : Kind Code) (session : SessionId) : Component Code :=
  ⟨kind, session, [], [], 0, none, .constructing⟩

/-- The component at the end of its life: its fields stay, everything else goes. -/
def retire (c : Component Code) : Component Code :=
  { c with phase := .destroyed, listeners := [], batch := none }

/-- The listeners that an update with the given options calls. -/
def listenersFor (c : Component Code) (options : UpdateOptions) : List (Listener Code) :=
  if options.notify then c.listeners else []

/-- Stores changes inside a batch, which keeps them back. -/
def buffer (id : ComponentId) (c : Component Code) (batch : Batch) (changes : Fields)
    (options : UpdateOptions) : Except ComponentError (Component Code) :=
  if batch.options ≠ options then .error (.batchOptionsMismatch id)
  else match changes.names.find? isActionKey with
    | some key => .error (.actionInBatch key)
    | none =>
      .ok { c with
        fields := applyChanges c.fields changes
        batch := some { batch with buffer := batch.buffer.putAll changes } }

/-- Stores changes and says what has to be told; inside a batch nothing has to. -/
def write (id : ComponentId) (c : Component Code) (changes : Fields) (options : UpdateOptions) :
    Except ComponentError (Component Code × Option (Delivery Code)) :=
  if c.phase = .destroyed then .error (.destroyed id)
  else match c.batch with
    | some batch => (c.buffer id batch changes options).map fun c => (c, none)
    | none =>
      match resolve c.fields changes with
      | .error e => .error (.ofChange id e)
      | .ok resolved =>
        .ok ({ c with fields := applyChanges c.fields resolved },
          some ⟨resolved, options, c.listenersFor options⟩)

/-- Opens a batch. -/
def openBatch (id : ComponentId) (c : Component Code) (holder : BatchHolder)
    (options : UpdateOptions) : Except ComponentError (Component Code) :=
  if c.phase = .destroyed then .error (.destroyed id)
  else if c.batch.isSome then .error (.batchAlreadyOpen id)
  else .ok { c with batch := some ⟨holder, [], options⟩ }

/-- The open batch, if it is the holder's. -/
def batchOf? (c : Component Code) (holder : BatchHolder) : Option Batch :=
  c.batch.filter (·.holder = holder)

/-- Closes the batch of a holder and says what has to be told: nothing when it is closed already or when
nothing was kept back. -/
def closeBatch (c : Component Code) (holder : BatchHolder) :
    Component Code × Option (Delivery Code) :=
  match c.batchOf? holder with
  | none => (c, none)
  | some batch =>
    ({ c with batch := none },
      if batch.buffer.isEmpty then none
      else some ⟨batch.buffer, batch.options, c.listenersFor batch.options⟩)

/-- Adds a listener. -/
def listen (c : Component Code) (fields : Option (List String)) (code : Code) :
    Listener Code × Component Code :=
  let listener : Listener Code := ⟨c.nextListener, fields, code⟩
  (listener,
    { c with listeners := c.listeners ++ [listener], nextListener := c.nextListener + 1 })

/-- Removes a listener and says whether it was there. -/
def unlisten (c : Component Code) (id : ListenerId) : Bool × Component Code :=
  (c.listeners.any (·.id = id), { c with listeners := c.listeners.filter (·.id ≠ id) })

end Component

end ViewSync
