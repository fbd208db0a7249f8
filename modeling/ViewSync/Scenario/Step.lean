import ViewSync.Backend.Program

/-!
# ViewSync.Scenario.Step

Scenarios: scripts that drive the backend. A step names the sessions, components and other things that it
works on; what the code of components, listeners and timers does is a body, a list of steps again.
-/

namespace ViewSync.Scenario

/-- Where the value of a step comes from. -/
inductive ValueSource where
  /-- The reference of a component. -/
  | ref (c : String)
  /-- A member of the payload of the running request; all of it, for an empty key. -/
  | payload (key : String)
  | value (v : Json)

/-- A step of a scenario. -/
inductive Step where
  /-- Opens a session, with settings as JSON text and a limit on the frames it may send. -/
  | openSession (s : String) (config : Option String) (room : Option Nat)
  | dropSession (s : String)
  | enter (s g : String)
  | exit (g : String)
  | current
  | depth (s : String)
  | isClosed (s : String)
  | count (s : String)
  | close (s : String)
  | closeChannel (s : String)
  | views (s : String)
  | frames (s : String)
  | messages (s : String)
  | take (s : String)
  | rawSend (s text : String)
  | onMessage (s text : String)
  | dispatch (s text : String)
  | send (s text : String)
  | run (s : String) (body : List Step)
  /-- Looks a component up by its number, and names it. -/
  | lookup (s : String) (id : ComponentId) (c : Option String)
  | debugSession (s : String)
  | debugComponent (c : String)
  | addWrapper (s name w : String) (factory : Bool)
  | removeWrapper (s name : String) (exitNow : Bool)
  /-- Creates a component, in the current session if none is named. -/
  | create (s : Option String) (kind c text : String)
  | get (c field : String)
  | snapshot (c : String)
  | set (c field : String) (value : ValueSource)
  | append (c field : String) (value : ValueSource)
  | remove (c field : String) (value : ValueSource)
  | update (c : String) (changes : Fields) (options : UpdateOptions)
  /-- Adds a whole number to a field that is there; one that holds no whole number counts as zero. -/
  | add (c field : String) (value : ValueSource)
  | beginBatch (c b : String) (options : UpdateOptions)
  | commit (b : String)
  | discard (b : String)
  | batch (c : String) (body : List Step)
  | listen (c l : String) (fields : Option (List String)) (immediate : Bool) (body : List Step)
  | unlisten (c l : String)
  | destroy (c : String)
  | phase (c : String)
  | ref (c : String)
  | identify (c : String)
  | owner (c : String)
  | same (c d : String)
  | showText (c text : String)
  | schedule (t : String) (ms : Nat) (body : List Step)
  | cancel (t : String)
  | advance (ms : Nat)
  | clock
  /-- Makes a debouncer, with the window of the session's settings if none is given. -/
  | debouncer (s d : String) (ms : Option Nat)
  | call (d : String) (body : List Step)
  | isPending (d : String)
  | periodic (s p : String) (ms : Nat) (body : List Step)
  | start (p : String)
  | clear (p : String)
  | reset (p : String)
  | isCleared (p : String)
  | dropPeriodic (p : String)
  | fail (text : String)
  | panic (p : Panic)
  /-- A step that is not known. -/
  | unknown (word : String)

instance : Inhabited Step := ⟨.current⟩

/-- Steps one after another; they end at the first failure. -/
abbrev Body := List Step

namespace Step

/-- The word for a step. -/
def word : Step → String
  | .openSession .. => "open"
  | .dropSession _ => "drop_session"
  | .enter .. => "enter"
  | .exit _ => "exit"
  | .current => "current"
  | .depth _ => "depth"
  | .isClosed _ => "is_closed"
  | .count _ => "count"
  | .close _ => "close"
  | .closeChannel _ => "close_channel"
  | .views _ => "views"
  | .frames _ => "frames"
  | .messages _ => "messages"
  | .take _ => "take"
  | .rawSend .. => "raw_send"
  | .onMessage .. => "on_message"
  | .dispatch .. => "dispatch"
  | .send .. => "send"
  | .run .. => "run"
  | .lookup .. => "lookup"
  | .debugSession _ => "debug"
  | .debugComponent _ => "debug"
  | .addWrapper .. => "add_wrapper"
  | .removeWrapper .. => "remove_wrapper"
  | .create .. => "create"
  | .get .. => "get"
  | .snapshot _ => "snapshot"
  | .set .. => "set"
  | .append .. => "append"
  | .remove .. => "remove"
  | .update .. => "update"
  | .add .. => "add"
  | .beginBatch .. => "begin"
  | .commit _ => "commit"
  | .discard _ => "discard"
  | .batch .. => "batch"
  | .listen .. => "listen"
  | .unlisten .. => "unlisten"
  | .destroy _ => "destroy"
  | .phase _ => "phase"
  | .ref _ => "ref"
  | .identify _ => "id"
  | .owner _ => "owner"
  | .same .. => "same"
  | .showText .. => "show"
  | .schedule .. => "schedule"
  | .cancel _ => "cancel"
  | .advance _ => "advance"
  | .clock => "clock"
  | .debouncer .. => "debouncer"
  | .call .. => "call"
  | .isPending _ => "is_pending"
  | .periodic .. => "periodic"
  | .start _ => "start"
  | .clear _ => "clear"
  | .reset _ => "reset"
  | .isCleared _ => "is_cleared"
  | .dropPeriodic _ => "drop_periodic"
  | .fail _ => "fail"
  | .panic _ => "panic"
  | .unknown word => word

end Step

/-- A rule by which a component adjusts changes. -/
inductive Rule where
  /-- Keeps a whole number between bounds. -/
  | clamp (field : String) (min max : Option Int)
  /-- Takes a field out of the changes, if it has the value. -/
  | drop (field : String) (equals : Option Json)
  /-- Refuses the changes if a field has the value. -/
  | abortIf (field : String) (equals : Option Json) (reason : String)
  /-- Refuses the changes if a whole number is below a limit. -/
  | abortBelow (field : String) (limit : Int) (reason : String)
  | put (field : String) (value : Json)
  | clear
  /-- Runs a body, if no field is named or the field has the value. -/
  | run (field : Option String) (equals : Option Json) (body : Body)

/-- A kind of component: the name of its view, and what it does of what it may do. -/
structure KindSpec where
  view : String
  init : Option Body
  adjust : Option (List Rule)
  request : Option Body

/-- A scenario: named views and kinds of components, and the steps. -/
structure Script where
  views : Table String ViewType
  kinds : Table String KindSpec
  steps : Body

/-- The code that a scenario hands to the backend. -/
inductive Code where
  | kind (name : String)
  | listener (label : String) (body : Body)
  | task (label : String) (body : Body)
  | debounced (label : String) (body : Body)
  | tick (label : String) (body : Body)
  | body (body : Body)

end ViewSync.Scenario
