import ViewSync.Backend.Callbacks.Timing

/-!
# ViewSync.Backend.Program

Programs that use the backend. A program asks for one thing after another and goes on with the answer; it
may look at the whole state, and keeps a state of its own in the store. The code that it hands over, of
components, listeners, timers and bodies, it hands over by name, so that the state stays plain data.

Each request is carried out by the operation of its name, with the callbacks that the program gives for
its code. Calls nest: a callback is a program again. `Prog.execute` therefore takes a number that bounds
the depth of nesting and the number of timers that one advance of the clock runs. A program may keep in its
state what the running callback is run for; `leave` gives that back when the callback ends.
-/

namespace ViewSync

/-- What a program may ask for. -/
inductive Request (Code Store : Type) where
  /-- Looks at the state. -/
  | look
  /-- Keeps a new state of the program. -/
  | keep (store : Store)
  /-- Adds an entry to the trace. -/
  | note (entry : Json)
  | panic (p : Panic)
  | openSession (config : SessionConfig) (channel : Channel)
  /-- Gives up the handle of a session. -/
  | releaseSession (s : SessionId)
  | closeChannel (s : SessionId)
  /-- Takes away the frames that the channel of a session keeps. -/
  | takeFrames (s : SessionId)
  /-- Puts a frame on the channel of a session, past the session. -/
  | sendRaw (s : SessionId) (text : String)
  | enter (s : SessionId)
  | exit (guard : GuardId)
  | newInstance (label : String)
  | addWrapper (s : SessionId) (name : String) (source : WrapperSource)
  | removeWrapper (s : SessionId) (name : String) (exitNow : Bool)
  | create (s : SessionId) (kind : Kind Code)
  | createCurrent (kind : Kind Code)
  | send (s : SessionId) (m : Message)
  | onMessage (s : SessionId) (text : String)
  | dispatch (s : SessionId) (text : String)
  | run (s : SessionId) (body : Code)
  | close (s : SessionId)
  | update (c : ComponentId) (changes : Fields) (options : UpdateOptions)
  | beginBatch (c : ComponentId) (options : UpdateOptions)
  | commit (c : ComponentId) (number : Nat)
  | discard (c : ComponentId) (number : Nat)
  | batch (c : ComponentId) (body : Code)
  | listen (c : ComponentId) (fields : Option (List String)) (immediate : Bool) (code : Code)
  | unlisten (c : ComponentId) (id : ListenerId)
  | destroy (c : ComponentId)
  | showText (c : ComponentId) (text : String)
  | schedule (delay : Nat) (code : Code)
  | cancel (id : TimerId)
  | advance (by_ : Nat)
  | newDebouncer (s : SessionId) (window : Nat)
  | callDebouncer (d : DebouncerId) (code : Code)
  | releaseDebouncer (d : DebouncerId)
  | newPeriodic (s : SessionId) (period : Nat) (code : Code)
  | startPeriodic (p : PeriodicId)
  | clearPeriodic (p : PeriodicId)
  | releasePeriodic (p : PeriodicId)

/-- What a request is answered with. -/
@[reducible] def Request.Answer {Code Store : Type} : Request Code Store → Type
  | .look => Backend Code Store
  | .panic _ => Empty
  | .openSession .. => SessionId
  | .takeFrames _ => List String
  | .sendRaw .. => Bool
  | .enter _ => GuardId
  | .newInstance _ => InstanceId
  | .addWrapper .. => Except SessionError Unit
  | .removeWrapper .. => Except SessionError Unit
  | .create .. => Except ComponentError ComponentId
  | .createCurrent _ => Except ComponentError ComponentId
  | .dispatch .. => Except SessionError Unit
  | .run .. => Option Json
  | .update .. => Except ComponentError Unit
  | .beginBatch .. => Except ComponentError Nat
  | .batch .. => Except Failure Json
  | .listen .. => ListenerId
  | .unlisten .. => Bool
  | .destroy _ => Except ComponentError Unit
  | .showText .. => Except ComponentError Unit
  | .schedule .. => TimerId
  | .cancel _ => Bool
  | .advance _ => Nat
  | .newDebouncer .. => DebouncerId
  | .newPeriodic .. => PeriodicId
  | _ => Unit

/-- A program: a result, or a request and what is done with the answer. -/
inductive Prog (Code Store : Type) (α : Type) where
  | done (a : α)
  | ask (r : Request Code Store) (next : r.Answer → Prog Code Store α)

namespace Prog

variable {Code Store α β : Type}

/-- One program after another. -/
protected def bind : Prog Code Store α → (α → Prog Code Store β) → Prog Code Store β
  | .done a, f => f a
  | .ask r next, f => .ask r fun answer => (next answer).bind f

instance : Monad (Prog Code Store) where
  pure := .done
  bind := Prog.bind

/-- The program of a single request. -/
def request (r : Request Code Store) : Prog Code Store r.Answer :=
  .ask r .done

/-- Looks at a part of the state. -/
def look (f : Backend Code Store → α) : Prog Code Store α :=
  .ask .look fun b => .done (f b)

/-- Looks at a part of the program's own state. -/
def stored (f : Store → α) : Prog Code Store α :=
  look fun b => f b.store

/-- Changes the program's own state. -/
def revise (f : Store → Store) : Prog Code Store Unit :=
  .ask .look fun b => request (.keep (f b.store))

/-- Carries out a program, given how each request is carried out. -/
def interpret (perform : (r : Request Code Store) → Run Code Store r.Answer) :
    Prog Code Store α → Run Code Store α
  | .done a => Run.pure a
  | .ask r next => Run.bind (perform r) fun answer => (next answer).interpret perform

end Prog

/-- Carries out a request. Each timer that an advance of the clock runs takes one of `fuel`. -/
def Callbacks.perform {Code Store : Type} (calls : Callbacks Code (Run Code Store)) (fuel : Nat) :
    (r : Request Code Store) → Run Code Store r.Answer
  | .look => Run.read id
  | .keep store => Run.modify (.keep store)
  | .note entry => Run.modify (.note entry)
  | .panic p => Run.panic p
  | .openSession config channel =>
    Run.step (.openSession config channel) fun b => (b.openSession config channel).1
  | .releaseSession s => Run.modify (.releaseSession s)
  | .closeChannel s => Run.modify (.closeChannel s)
  | .takeFrames s => Run.step (.takeFrames s) fun b => (b.takeFrames s).1
  | .sendRaw s text => Run.step (.sendRaw s text) fun b => (b.sendRaw s text).1
  | .enter s => Run.step (.enter s true) fun b => (b.enter s true).1
  | .exit guard => Run.modify (.exit guard)
  | .newInstance label => Run.step (.newInstance label) fun b => (b.newInstance label).1
  | .addWrapper s name source =>
    Run.attempt (.addWrapper s name source) (·.addWrapper s name source)
  | .removeWrapper s name exitNow =>
    Run.attempt (.removeWrapper s name exitNow) (·.removeWrapper s name exitNow)
  | .create s kind => calls.create s kind
  | .createCurrent kind => calls.createCurrent kind
  | .send s m => Run.modify (.send s m)
  | .onMessage s text => calls.onMessage s text
  | .dispatch s text => calls.dispatch s text
  | .run s body => calls.run s (calls.body body)
  | .close s => Run.modify (.close s)
  | .update c changes options => calls.update c changes options
  | .beginBatch c options =>
    Run.step (.beginBatch c options) fun b => (b.beginBatch c options).map (·.1)
  | .commit c number => calls.commit c (.handle number)
  | .discard c number => Run.modify (.drop c (.handle number))
  | .batch c body => calls.batch c .component (calls.body body)
  | .listen c fields immediate code => calls.listen c fields immediate code
  | .unlisten c id => Run.step (.unlisten c id) fun b => (b.unlisten c id).1
  | .destroy c => Run.attempt (.destroy c) (·.destroy c)
  | .showText c text => calls.showText c text
  | .schedule delay code =>
    Run.step (.schedule delay (.task code)) fun b => (b.schedule delay (.task code)).1
  | .cancel id => Run.step (.cancel id) fun b => (b.cancel id).1
  | .advance by_ => calls.advance fuel by_
  | .newDebouncer s window =>
    Run.step (.newDebouncer s window) fun b => (b.newDebouncer s window).1
  | .callDebouncer d code => Run.modify (.callDebouncer d code)
  | .releaseDebouncer d => Run.modify (.releaseDebouncer d)
  | .newPeriodic s period code =>
    Run.step (.newPeriodic s period code) fun b => (b.newPeriodic s period code).1
  | .startPeriodic p => Run.modify (.startPeriodic p)
  | .clearPeriodic p => Run.modify (.clearPeriodic p)
  | .releasePeriodic p => Run.modify (.releasePeriodic p)

/-- Carries out a program whose callbacks are programs too, with calls nested to the given depth. -/
def Prog.execute {Code Store : Type} (calls : Callbacks Code (Prog Code Store))
    (leave : Store → Store → Store) : Nat → {α : Type} → Prog Code Store α → Run Code Store α
  | 0, _, _ => Run.exhaust
  | fuel + 1, _, p =>
    p.interpret ((calls.map fun call => (execute calls leave fuel call).calling leave).perform fuel)

end ViewSync
