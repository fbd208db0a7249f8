import ViewSync.Backend.Clock
import ViewSync.Backend.Session

/-!
# ViewSync.Backend.State

The state of the backend: sessions, components, activations and timers, the trace of what could be seen
from outside, and the store of the program that uses it all. The code of the program is not part of the
state; components, listeners and timers only name the code that they call.
-/

namespace ViewSync

/-- The number of an activation. -/
abbrev GuardId := Nat

/-- The number of a debouncer. -/
abbrev DebouncerId := Nat

/-- The number of a periodic task. -/
abbrev PeriodicId := Nat

/-- An activation that lasts. -/
structure Guard where
  id : GuardId
  session : SessionId
  /-- Whether the program ends it; otherwise the operation that began it does. -/
  held : Bool
deriving DecidableEq, Repr

/-- An instance of a wrapper, and how often it has been entered. -/
structure WrapperInstance where
  label : String
  entered : Nat
deriving DecidableEq, Repr

/-- What a timer calls. -/
inductive Job (Code : Type) where
  | task (code : Code)
  | debounced (id : DebouncerId)
  | tick (id : PeriodicId)

/-- Collapses calls that follow each other closely into the last of them. -/
structure Debouncer (Code : Type) where
  session : SessionId
  window : Nat
  /-- The call that waits for the end of the window. -/
  pending : Option Code
  /-- Whether the program holds a handle. -/
  held : Bool

/-- Calls code again and again. -/
structure Periodic (Code : Type) where
  session : SessionId
  period : Nat
  code : Code
  /-- The timer of the next tick. -/
  timer : Option TimerId
  cleared : Bool
  /-- Whether the program holds a handle. -/
  held : Bool

/-- What can be seen from outside. -/
inductive Event where
  /-- The channel of a session accepted the frame of a message. -/
  | sent (session : SessionId) (message : Message)
  /-- The instance of a wrapper was entered, for so many times now. -/
  | entered (session : SessionId) (name : String) (instance_ : InstanceId) (times : Nat)
  | exited (session : SessionId) (name : String) (instance_ : InstanceId) (times : Nat)
  /-- A factory made an instance. -/
  | built (instance_ : InstanceId)
  /-- An entry of the program. -/
  | note (entry : Json)

/-- The state of the backend. -/
structure Backend (Code Store : Type) where
  sessions : Table SessionId Session := .empty
  components : Table ComponentId (Component Code) := .empty
  instances : Table InstanceId WrapperInstance := .empty
  debouncers : Table DebouncerId (Debouncer Code) := .empty
  periodics : Table PeriodicId (Periodic Code) := .empty
  clock : Clock (Job Code) := {}
  /-- The activations that last, in the order in which they began. -/
  guards : List Guard := []
  /-- The active sessions, the current one last. -/
  stack : List SessionId := []
  /-- What happened, in order. -/
  trace : List Event := []
  nextSession : SessionId := 1
  nextComponent : ComponentId := 1
  nextGuard : GuardId := 0
  nextBatch : Nat := 0
  /-- The program's own state. -/
  store : Store

namespace Backend

variable {Code Store : Type}

/-- Adds an event to the trace. -/
def record (b : Backend Code Store) (e : Event) : Backend Code Store :=
  { b with trace := b.trace ++ [e] }

/-- What an operation leaves: one that fails changes nothing. -/
def afterTry {ε : Type} (b : Backend Code Store) : Except ε (Backend Code Store) → Backend Code Store
  | .ok b' => b'
  | .error _ => b

/-! ## Sessions -/

/-- A session that is not there counts as a closed one without a handle. -/
def noSession : Session :=
  { config := {}, channel := { closed := true }, closed := true, held := false }

/-- The state of a session. -/
def session (b : Backend Code Store) (s : SessionId) : Session :=
  (b.sessions.get? s).getD noSession

/-- Changes the state of a session. -/
def modifySession (b : Backend Code Store) (s : SessionId) (f : Session → Session) :
    Backend Code Store :=
  { b with sessions := b.sessions.modify s f }

/-- The current session: the one that was activated last. -/
def current? (b : Backend Code Store) : Option SessionId :=
  b.stack.getLast?

/-- Whether a timer of a debouncer waits. -/
def awaits (b : Backend Code Store) (d : DebouncerId) : Bool :=
  b.clock.pending.any fun timer =>
    match timer.job with
    | .debounced id => id = d
    | _ => false

/-- A session lives while the program holds it, or an activation, a debouncer or a periodic task does. A
debouncer lives on until its timer has run. -/
def isAlive (b : Backend Code Store) (s : SessionId) : Bool :=
  (b.session s).held || b.stack.contains s
    || b.debouncers.entries.any (fun e => e.2.session = s && (e.2.held || b.awaits e.1))
    || b.periodics.entries.any (fun e => e.2.session = s && e.2.held)

/-- Gives up the program's handle of a session. -/
def releaseSession (b : Backend Code Store) (s : SessionId) : Backend Code Store :=
  b.modifySession s fun session => { session with held := false }

/-- Opens a session. -/
def openSession (b : Backend Code Store) (config : SessionConfig) (channel : Channel) :
    SessionId × Backend Code Store :=
  (b.nextSession,
    { b with
      sessions := b.sessions.insert b.nextSession { config := config, channel := channel }
      nextSession := b.nextSession + 1 })

/-! ## Components -/

/-- The state of a component. -/
def component? (b : Backend Code Store) (c : ComponentId) : Option (Component Code) :=
  b.components.get? c

/-- Changes the state of a component. -/
def modifyComponent (b : Backend Code Store) (c : ComponentId)
    (f : Component Code → Component Code) : Backend Code Store :=
  { b with components := b.components.modify c f }

/-- Sets the state of a component. -/
def setComponent (b : Backend Code Store) (c : ComponentId) (component : Component Code) :
    Backend Code Store :=
  { b with components := b.components.insert c component }

/-- The phase of a component; one that is not there counts as destroyed. -/
def phase (b : Backend Code Store) (c : ComponentId) : Phase :=
  ((b.component? c).map (·.phase)).getD .destroyed

/-- The fields of a component. -/
def fields (b : Backend Code Store) (c : ComponentId) : Fields :=
  ((b.component? c).map (·.fields)).getD []

/-- The value of a field. -/
def field (b : Backend Code Store) (c : ComponentId) (name : String) : Except ComponentError Json :=
  match (b.fields c).get? name with
  | some v => .ok v
  | none => .error (.unknownField c name)

/-- The session of a component, while it lives. -/
def owner? (b : Backend Code Store) (c : ComponentId) : Option SessionId :=
  ((b.component? c).map (·.session)).filter b.isAlive

/-! ## Channels -/

/-- Changes the channel of a session. -/
def modifyChannel (b : Backend Code Store) (s : SessionId) (f : Channel → Channel) :
    Backend Code Store :=
  b.modifySession s fun session => { session with channel := f session.channel }

/-- Closes the channel of a session. -/
def closeChannel (b : Backend Code Store) (s : SessionId) : Backend Code Store :=
  b.modifyChannel s fun channel => { channel with closed := true }

/-- Takes away the frames that the channel of a session keeps. -/
def takeFrames (b : Backend Code Store) (s : SessionId) : List String × Backend Code Store :=
  ((b.session s).channel.frames, b.modifyChannel s fun channel => { channel with frames := [] })

/-- Puts a frame on the channel of a session, past the session, and says whether the channel took it. -/
def sendRaw (b : Backend Code Store) (s : SessionId) (text : String) : Bool × Backend Code Store :=
  match (b.session s).channel.accept? text with
  | none => (false, b)
  | some channel => (true, b.modifyChannel s fun _ => channel)

/-! ## Frames -/

/-- Sends a message. A closed session drops it; a channel that refuses it closes the session. -/
def send (b : Backend Code Store) (s : SessionId) (m : Message) : Backend Code Store :=
  let session := b.session s
  if session.isClosed then b
  else match session.channel.send? m.encode with
    | some channel => (b.modifyChannel s fun _ => channel).record (.sent s m)
    | none => b.modifySession s fun session => { session with closed := true }

/-- Sends a message of a component, if its session lives. -/
def sendFrom (b : Backend Code Store) (c : ComponentId) (m : Message) : Backend Code Store :=
  match b.owner? c with
  | some s => b.send s m
  | none => b

end Backend

end ViewSync
