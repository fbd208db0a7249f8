import ViewSync.Backend.Activation
import ViewSync.Backend.Lifecycle
import ViewSync.Backend.Timing

/-!
# ViewSync.Backend.Act

The acts of the backend: everything that changes its state, each in one piece. Code of the program runs
between two acts, never inside one. An act that the state does not allow changes nothing; what it answers
is read off the state before it.
-/

namespace ViewSync

/-- An act of the backend. -/
inductive Act (Code Store : Type) where
  /-- The program keeps a new state of its own. -/
  | keep (store : Store)
  /-- The program adds an entry to the trace. -/
  | note (entry : Json)
  | openSession (config : SessionConfig) (channel : Channel)
  | releaseSession (s : SessionId)
  | closeChannel (s : SessionId)
  | takeFrames (s : SessionId)
  | sendRaw (s : SessionId) (text : String)
  /-- The program sends a message of its own. -/
  | send (s : SessionId) (m : Message)
  | close (s : SessionId)
  | enter (s : SessionId) (held : Bool)
  /-- The program ends an activation that it holds. -/
  | exit (guard : GuardId)
  /-- An operation ends the activation that it began. -/
  | leave (guard : GuardId)
  | newInstance (label : String)
  | addWrapper (s : SessionId) (name : String) (source : WrapperSource)
  | removeWrapper (s : SessionId) (name : String) (exitNow : Bool)
  | enroll (s : SessionId) (kind : Kind Code) (definition : ViewDefinition)
  /-- A component has been constructed. -/
  | activate (c : ComponentId)
  /-- A component could not be constructed, and is destroyed. -/
  | abandon (c : ComponentId)
  /-- The program destroys a component. -/
  | destroy (c : ComponentId)
  | showFailuresIn (s : SessionId) (c : ComponentId)
  | change (c : ComponentId) (changes : Fields) (options : UpdateOptions)
  | openBatch (c : ComponentId) (holder : BatchHolder) (options : UpdateOptions)
  | beginBatch (c : ComponentId) (options : UpdateOptions)
  | commit (c : ComponentId) (holder : BatchHolder)
  | drop (c : ComponentId) (holder : BatchHolder)
  | listen (c : ComponentId) (fields : Option (List String)) (code : Code)
  | unlisten (c : ComponentId) (id : ListenerId)
  | schedule (delay : Nat) (job : Job Code)
  | cancel (id : TimerId)
  | takeDue (target : Nat)
  | reach (target : Nat)
  | newDebouncer (s : SessionId) (window : Nat)
  | callDebouncer (d : DebouncerId) (code : Code)
  | takeCall (d : DebouncerId)
  | releaseDebouncer (d : DebouncerId)
  | newPeriodic (s : SessionId) (period : Nat) (code : Code)
  | startPeriodic (p : PeriodicId)
  | clearPeriodic (p : PeriodicId)
  | takeTick (p : PeriodicId)
  | rearm (p : PeriodicId)
  | releasePeriodic (p : PeriodicId)

/-- The state after an act. -/
def Act.apply {Code Store : Type} (b : Backend Code Store) : Act Code Store → Backend Code Store
  | .keep store => { b with store := store }
  | .note entry => b.record (.note entry)
  | .openSession config channel => (b.openSession config channel).2
  | .releaseSession s => b.releaseSession s
  | .closeChannel s => b.closeChannel s
  | .takeFrames s => (b.takeFrames s).2
  | .sendRaw s text => (b.sendRaw s text).2
  | .send s m => b.send s m
  | .close s => b.close s
  | .enter s held => (b.enter s held).2
  | .exit guard => b.exit guard
  | .leave guard => b.leaveNumber guard
  | .newInstance label => (b.newInstance label).2
  | .addWrapper s name source => b.afterTry (b.addWrapper s name source)
  | .removeWrapper s name exitNow => b.afterTry (b.removeWrapper s name exitNow)
  | .enroll s kind definition => (b.enroll s kind definition).2
  | .activate c => b.activate c
  | .abandon c => b.afterTry (b.destroy c)
  | .destroy c => b.afterTry (b.destroy c)
  | .showFailuresIn s c => b.showFailuresIn s c
  | .change c changes options => b.afterTry ((b.change c changes options).map (·.2))
  | .openBatch c holder options => b.afterTry (b.openBatch c holder options)
  | .beginBatch c options => b.afterTry ((b.beginBatch c options).map (·.2))
  | .commit c holder => (b.commit c holder).2
  | .drop c holder => b.drop c holder
  | .listen c fields code => (b.listen c fields code).2
  | .unlisten c id => (b.unlisten c id).2
  | .schedule delay job => (b.schedule delay job).2
  | .cancel id => (b.cancel id).2
  | .takeDue target => (b.takeDue target).2
  | .reach target => b.reach target
  | .newDebouncer s window => (b.newDebouncer s window).2
  | .callDebouncer d code => b.callDebouncer d code
  | .takeCall d => (b.takeCall d).2
  | .releaseDebouncer d => b.releaseDebouncer d
  | .newPeriodic s period code => (b.newPeriodic s period code).2
  | .startPeriodic p => b.startPeriodic p
  | .clearPeriodic p => b.clearPeriodic p
  | .takeTick p => (b.takeTick p).2
  | .rearm p => b.rearm p
  | .releasePeriodic p => b.releasePeriodic p

namespace Backend

variable {Code Store : Type}

/-- The state after acts, one after another. -/
def play (b : Backend Code Store) (acts : List (Act Code Store)) : Backend Code Store :=
  acts.foldl Act.apply b

end Backend

end ViewSync
