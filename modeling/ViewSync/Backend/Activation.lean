import ViewSync.Backend.State

/-!
# ViewSync.Backend.Activation

Activations and wrappers. The first activation of a session engages its wrappers in the order in which
they were added, the end of the last one releases them in reverse; activations in between only count.
-/

namespace ViewSync.Backend

variable {Code Store : Type}

/-! ## Instances of wrappers -/

/-- Makes an instance of a wrapper. -/
def newInstance (b : Backend Code Store) (label : String) : InstanceId × Backend Code Store :=
  let id := b.instances.size
  (id, { b with instances := b.instances.insert id ⟨label, 0⟩ })

/-- How often an instance has been entered. -/
def timesEntered (b : Backend Code Store) (instance_ : InstanceId) : Nat :=
  ((b.instances.get? instance_).map (·.entered)).getD 0

/-- Enters an instance. -/
def enterInstance (b : Backend Code Store) (s : SessionId) (name : String) (instance_ : InstanceId) :
    Backend Code Store :=
  let times := b.timesEntered instance_ + 1
  { b with instances := b.instances.modify instance_ fun i => { i with entered := times } }.record
    (.entered s name instance_ times)

/-- Exits an instance. -/
def exitInstance (b : Backend Code Store) (s : SessionId) (name : String) (instance_ : InstanceId) :
    Backend Code Store :=
  b.record (.exited s name instance_ (b.timesEntered instance_))

/-- The instance to engage now. -/
def instanceOf (b : Backend Code Store) : WrapperSource → InstanceId × Backend Code Store
  | .ready instance_ => (instance_, b)
  | .factory label =>
    let (id, b) := b.newInstance label
    (id, b.record (.built id))

/-! ## Engaging and releasing -/

/-- Exits the instance that is engaged under a name, if there is one. -/
def releaseNamed (b : Backend Code Store) (s : SessionId) (name : String) : Backend Code Store :=
  match (b.session s).engaged.get? name with
  | none => b
  | some instance_ =>
    (b.modifySession s fun session =>
      { session with engaged := session.engaged.erase name }).exitInstance s name instance_

/-- Engages a wrapper. An instance that is still engaged under the name, because its wrapper was removed
without being released, is released first. -/
def engage (b : Backend Code Store) (s : SessionId) (name : String) (source : WrapperSource) :
    Backend Code Store :=
  let (instance_, b) := (b.releaseNamed s name).instanceOf source
  (b.enterInstance s name instance_).modifySession s fun session =>
    { session with engaged := session.engaged.insert name instance_ }

/-- Engages all wrappers of a session. -/
def engageAll (b : Backend Code Store) (s : SessionId) : Backend Code Store :=
  (b.session s).wrappers.entries.foldl (fun b e => b.engage s e.1 e.2) b

/-- Releases all engaged wrappers of a session, the last one first. -/
def releaseAll (b : Backend Code Store) (s : SessionId) : Backend Code Store :=
  let engaged := (b.session s).engaged.entries.reverse
  engaged.foldl (fun b e => b.exitInstance s e.1 e.2)
    (b.modifySession s fun session => { session with engaged := .empty })

/-! ## Activations -/

/-- Removes the last occurrence of a session from a stack. -/
def eraseLast (s : SessionId) (stack : List SessionId) : List SessionId :=
  (stack.reverse.erase s).reverse

/-- Begins an activation. -/
def enter (b : Backend Code Store) (s : SessionId) (held : Bool) : GuardId × Backend Code Store :=
  let guard : Guard := ⟨b.nextGuard, s, held⟩
  let depth := (b.session s).depth
  let b := b.modifySession s fun session => { session with depth := depth + 1 }
  let b := { b with
    guards := b.guards ++ [guard]
    stack := b.stack ++ [s]
    nextGuard := b.nextGuard + 1 }
  (guard.id, if depth = 0 then b.engageAll s else b)

/-- Ends an activation. The session leaves the stack where it is innermost. -/
def leave (b : Backend Code Store) (guard : Guard) : Backend Code Store :=
  let s := guard.session
  let depth := (b.session s).depth - 1
  let b := b.modifySession s fun session => { session with depth := depth }
  let b := if depth = 0 then b.releaseAll s else b
  { b with guards := b.guards.filter (·.id ≠ guard.id), stack := eraseLast s b.stack }

/-- Ends an activation that still lasts. -/
def leaveNumber (b : Backend Code Store) (id : GuardId) : Backend Code Store :=
  match b.guards.find? (·.id = id) with
  | some guard => b.leave guard
  | none => b

/-- Ends an activation that the program holds. -/
def exit (b : Backend Code Store) (id : GuardId) : Backend Code Store :=
  match b.guards.find? (·.id = id) with
  | some guard => if guard.held then b.leave guard else b
  | none => b

/-! ## Wrappers -/

/-- Adds a wrapper; an active session engages it at once. -/
def addWrapper (b : Backend Code Store) (s : SessionId) (name : String) (source : WrapperSource) :
    Except SessionError (Backend Code Store) :=
  let session := b.session s
  if session.wrappers.contains name then .error (.duplicateWrapper name)
  else
    let b := b.modifySession s fun session =>
      { session with wrappers := session.wrappers.insert name source }
    .ok (if 0 < session.depth then b.engage s name source else b)

/-- Removes a wrapper. Its instance stays engaged until the last activation ends, unless it is to exit
now. -/
def removeWrapper (b : Backend Code Store) (s : SessionId) (name : String) (exitNow : Bool) :
    Except SessionError (Backend Code Store) :=
  if (b.session s).wrappers.contains name then
    let b := b.modifySession s fun session =>
      { session with wrappers := session.wrappers.erase name }
    .ok (if exitNow then b.releaseNamed s name else b)
  else .error (.unknownWrapper name)

end ViewSync.Backend
