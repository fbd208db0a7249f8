import ViewSync.Scenario.Handles

/-!
# ViewSync.Scenario.Play

What scenarios do: each step as a program, the callbacks for the code of a scenario, and the answers and
logs of a whole scenario.
-/

namespace ViewSync.Scenario

/-- A program of a scenario. -/
abbrev Program := Prog Code Handles

/-- A program of a scenario that may fail. -/
abbrev Attempt := ExceptT Failure Program

namespace Attempt

/-- A request, answered without failure. -/
def ask (r : Request Code Handles) : Attempt r.Answer :=
  ExceptT.lift (Prog.request r)

/-- A look at the state. -/
def look {α : Type} (f : Backend Code Handles → α) : Attempt α :=
  ExceptT.lift (Prog.look f)

/-- Changes the names. -/
def revise (f : Handles → Handles) : Attempt Unit :=
  ExceptT.lift (Prog.revise f)

/-- What a name stands for. -/
def find {α : Type} (f : Handles → Option α) : Attempt α := do
  match ← look fun b => f b.store with
  | some a => return a
  | none => throw noHandle

/-- The session of a name. -/
def session (s : String) : Attempt SessionId := find (·.sessions.get? s)

/-- The component of a name. -/
def component (c : String) : Attempt ComponentId := find (·.component? c)

/-- An outcome of the backend: its error is the failure of the step. -/
def check {ε α : Type} (fail : ε → Failure) : Except ε α → Attempt α
  | .ok a => pure a
  | .error e => throw (fail e)

/-- An outcome of an operation on a component. -/
def checkComponent {α : Type} : Except ComponentError α → Attempt α := check .component

/-- An outcome of an operation on a session. -/
def checkSession {α : Type} : Except SessionError α → Attempt α := check .session

end Attempt

open Attempt

/-! ## Names -/

/-- Gives up a session that has lost its last name. -/
def releaseUnnamed (s : SessionId) : Attempt Unit := do
  if !(← look (·.store.namesSession s)) then
    let _ ← ask (.releaseSession s)

/-- Names a session; what the name stood for is given up. -/
def nameSession (name : String) (s : SessionId) : Attempt Unit := do
  let old ← look (·.store.sessions.get? name)
  revise fun h => { h with sessions := h.sessions.insert name s }
  match old with
  | some old => releaseUnnamed old
  | none => return ()

/-- Names a component. -/
def nameComponent (name : String) (c : ComponentId) : Attempt Unit :=
  revise fun h => { h with components := h.components.insert name c }

/-! ## Values -/

/-- The value of a step. Outside of requests there is no payload. -/
def ValueSource.eval : ValueSource → Attempt Json
  | .ref c => do return componentRef (← component c)
  | .value v => pure v
  | .payload key => do
    let payload ← find (·.scope.payload)
    if key = "" then return payload
    match (payload.asObj?.getD []).get? key with
    | some v => return v
    | none => throw (failed ("missing " ++ key))

/-- Sets one field. -/
def setField (c : ComponentId) (field : String) (v : Json) : Attempt Json := do
  checkComponent (← ask (.update c [(field, v)] {}))
  return .null

/-- The sum of two whole numbers in 64 bits. -/
def addInt64 (a b : Int) : Int :=
  (a + b).bmod 0x10000000000000000

/-! ## Steps -/

/-- How a session is shown. -/
def describeSession (b : Backend Code Handles) (s : SessionId) : String :=
  "Session \x7b id: " ++ toString s ++ ", closed: "
    ++ (if (b.session s).isClosed then "true" else "false") ++ " \x7d"

/-- The view of a kind of component. -/
def viewOf (script : Script) : Kind Code → ViewType
  | .diagnostic _ => FailureView.viewType
  | .custom (.kind name) =>
    ((script.kinds.get? name).bind fun spec => script.views.get? spec.view).getD
      FailureView.viewType
  | .custom _ => FailureView.viewType

/-- The reference of the view of a component. -/
def viewRefOf (script : Script) (b : Backend Code Handles) (c : ComponentId) : ViewRef :=
  (viewOf script (((b.component? c).map (·.kind)).getD (.diagnostic ""))).viewRef

/-- How a component is shown. -/
def describeComponent (script : Script) (b : Backend Code Handles) (c : ComponentId) : String :=
  "Component \x7b id: " ++ toString c ++ ", view_ref: " ++ (viewRefOf script b c).describe
    ++ ", phase: " ++ (b.phase c).name ++ " \x7d"

/-- The settings of a session that is opened. -/
def readConfig : Option String → Except Failure SessionConfig
  | none => .ok {}
  | some text =>
    match SessionConfig.decode text with
    | .ok config => .ok config
    | .error e => .error (failed e.category.word)

/-- A kind of component by its name. -/
def readKind? (script : Script) (name text : String) : Option (Kind Code) :=
  if name = "@diagnostic" then some (.diagnostic text)
  else if script.kinds.contains name then some (.custom (.kind name))
  else none

/-- The source of a wrapper by its label; the first use of a label makes it. -/
def wrapperSource (label : String) (factory : Bool) : Attempt WrapperSource := do
  match ← look (·.store.wrappers.get? label) with
  | some source => return source
  | none =>
    let source ← if factory then pure (.factory label) else .ready <$> ask (.newInstance label)
    revise fun h => { h with wrappers := h.wrappers.insert label source }
    return source

/-- Steps on sessions. -/
def onSession (script : Script) (name : String) (step : Step) : Attempt Json := do
  let s ← session name
  match step with
  | .enter _ g =>
    let guard ← ask (.enter s)
    let old ← look (·.store.guards.get? g)
    revise fun h => { h with guards := h.guards.insert g guard }
    match old with
    | some old => let _ ← ask (.exit old)
    | none => pure ()
    return .str (← look (·.store.nameOf s))
  | .depth _ => return .int (← look (·.session s)).depth
  | .isClosed _ => return .bool (← look (·.session s)).isClosed
  | .count _ => return .int (← look (·.session s)).arena.length
  | .close _ =>
    let _ ← ask (.close s)
    return .null
  | .closeChannel _ =>
    let _ ← ask (.closeChannel s)
    return .null
  | .views _ => return textsJson ((← look (·.session s)).views.keys.map ViewRef.render)
  | .frames _ => return .int (← look (·.session s)).channel.frames.length
  | .messages _ =>
    let frames := (← look (·.session s)).channel.frames
    return textsJson (frames.filterMap fun text =>
      ((Message.decode text).toOption.map fun m => m.kind.word))
  | .take _ => return textsJson (← ask (.takeFrames s))
  | .rawSend _ text => return .str (if ← ask (.sendRaw s text) then "sent" else "channel closed")
  | .onMessage _ text =>
    let _ ← ask (.onMessage s text)
    return .null
  | .dispatch _ text =>
    checkSession (← ask (.dispatch s text))
    return .null
  | .send _ text =>
    let m ← check (fun e => .session (.codec e)) (Message.decode text)
    let _ ← ask (.send s m)
    return .null
  | .run _ body =>
    match ← ask (.run s (.body body)) with
    | some v => return .arr [.str "some", v]
    | none => return .str "none"
  | .lookup _ id c =>
    if (← look (·.session s)).arena.contains id then
      match c with
      | some c => nameComponent c id
      | none => pure ()
      return .str (← look fun b => (viewRefOf script b id).render)
    else return .null
  | .debugSession _ => return .str (← look (describeSession · s))
  | .addWrapper _ name w factory =>
    checkSession (← ask (.addWrapper s name (← wrapperSource w factory)))
    return .null
  | .removeWrapper _ name exitNow =>
    checkSession (← ask (.removeWrapper s name exitNow))
    return .null
  | .debouncer _ d ms =>
    let window := ms.getD (← look (·.session s)).config.debounceMs
    let id ← ask (.newDebouncer s window)
    let old ← look (·.store.debouncers.get? d)
    revise fun h => { h with debouncers := h.debouncers.insert d id }
    match old with
    | some old => let _ ← ask (.releaseDebouncer old)
    | none => pure ()
    return .int window
  | .periodic _ p ms body =>
    let id ← ask (.newPeriodic s ms (.tick p body))
    let old ← look (·.store.periodics.get? p)
    revise fun h => { h with periodics := h.periodics.insert p id }
    match old with
    | some old => let _ ← ask (.releasePeriodic old)
    | none => pure ()
    return .int ms
  | _ => return .null

/-- Steps on components. -/
def onComponent (script : Script) (name : String) (step : Step) : Attempt Json := do
  let c ← component name
  match step with
  | .get _ field => return .str (← checkComponent (← look (·.field c field))).render
  | .snapshot _ => return .str (Json.obj (← look (·.fields c))).render
  | .set _ field value => setField c field (← value.eval)
  | .append _ field value => setField c (actionKey field .append) (← value.eval)
  | .remove _ field value => setField c (actionKey field .remove) (← value.eval)
  | .update _ changes options =>
    checkComponent (← ask (.update c changes options))
    return .null
  | .add _ field value =>
    match (← value.eval).asInt64? with
    | none => throw (failed "not an integer")
    | some n =>
      let old ← checkComponent (← look (·.field c field))
      setField c field (.int (addInt64 (old.asInt64?.getD 0) n))
  | .beginBatch _ b options =>
    let number ← checkComponent (← ask (.beginBatch c options))
    let old ← look (·.store.batches.get? b)
    revise fun h => { h with batches := h.batches.insert b (c, number) }
    match old with
    | some (c, number) => let _ ← ask (.discard c number)
    | none => pure ()
    return .null
  | .batch _ body => check id (← ask (.batch c (.body body)))
  | .listen _ l fields immediate body =>
    let id ← ask (.listen c fields immediate (.listener l body))
    revise fun h => { h with listeners := h.listeners.insert l id }
    return .null
  | .unlisten _ l =>
    let id ← find (·.listeners.get? l)
    return .bool (← ask (.unlisten c id))
  | .destroy _ =>
    checkComponent (← ask (.destroy c))
    return .null
  | .phase _ =>
    let phase ← look (·.phase c)
    return .arr [.str phase.name, .bool (phase = .destroyed)]
  | .ref _ => return .str (componentRef c).render
  | .identify _ => return .int c
  | .owner _ =>
    return (← look fun b => (b.owner? c).map b.store.nameOf).elim .null .str
  | .same _ d => return .bool (c = (← component d))
  | .showText _ text =>
    checkComponent (← ask (.showText c text))
    return .null
  | .debugComponent _ => return .str (← look (describeComponent script · c))
  | _ => return .null

/-- Steps on a debouncer. -/
def onDebouncer (name : String) (step : Step) : Attempt Json := do
  let d ← find (·.debouncers.get? name)
  match step with
  | .call _ body =>
    let _ ← ask (.callDebouncer d (.debounced name body))
  | _ => pure ()
  return .bool (← look (·.callWaits d))

/-- Steps on a periodic task. -/
def onPeriodic (name : String) (step : Step) : Attempt Json := do
  let p ← find (·.periodics.get? name)
  match step with
  | .start _ => let _ ← ask (.startPeriodic p)
  | .reset _ => let _ ← ask (.startPeriodic p)
  | .clear _ => let _ ← ask (.clearPeriodic p)
  | _ => pure ()
  return .bool (← look (·.isCleared p))

/-- What a step does. -/
def Step.attempt (script : Script) (step : Step) : Attempt Json :=
  match step with
  | .openSession name config room => do
    let config ← check id (readConfig config)
    let s ← ask (.openSession config { room := room })
    revise fun h => { h with openedAs := h.openedAs.insert s name }
    nameSession name s
    return .int s
  | .dropSession name => do
    match ← look (·.store.sessions.get? name) with
    | none => return .bool false
    | some s =>
      revise fun h => { h with sessions := h.sessions.erase name }
      releaseUnnamed s
      return .bool true
  | .exit g => do
    let guard ← find (·.guards.get? g)
    revise fun h => { h with guards := h.guards.erase g }
    let _ ← ask (.exit guard)
    return .null
  | .current => do
    return (← look fun b => b.current?.map b.store.nameOf).elim .null .str
  | .create s kind c text => do
    let s ← match s with
      | some name => do pure (some (← session name))
      | none => pure none
    let kind ← match readKind? script kind text with
      | some kind => pure kind
      | none => throw noHandle
    let id ← match s with
      | some s => do checkComponent (← ask (.create s kind))
      | none => do checkComponent (← ask (.createCurrent kind))
    nameComponent c id
    return .int id
  | .commit b => do
    let (c, number) ← find (·.batches.get? b)
    revise fun h => { h with batches := h.batches.erase b }
    let _ ← ask (.commit c number)
    return .null
  | .discard b => do
    let (c, number) ← find (·.batches.get? b)
    revise fun h => { h with batches := h.batches.erase b }
    let _ ← ask (.discard c number)
    return .null
  | .schedule t ms body => do
    let id ← ask (.schedule ms (.task t body))
    revise fun h => { h with timers := h.timers.insert t id }
    return .int id
  | .cancel t => do
    return .bool (← ask (.cancel (← find (·.timers.get? t))))
  | .advance ms => do
    return .int (← ask (.advance ms))
  | .clock => do
    let clock ← look (·.clock)
    return .arr [.int clock.now, .int clock.pending.length]
  | .dropPeriodic name => do
    match ← look (·.store.periodics.get? name) with
    | none => return .bool false
    | some p =>
      revise fun h => { h with periodics := h.periodics.erase name }
      let _ ← ask (.releasePeriodic p)
      return .bool true
  | .fail text => throw (failed text)
  | .panic p => do nomatch ← ask (.panic p)
  | .unknown _ => return .null
  | .enter s _ | .depth s | .isClosed s | .count s | .close s | .closeChannel s | .views s
  | .frames s | .messages s | .take s | .rawSend s _ | .onMessage s _ | .dispatch s _ | .send s _
  | .run s _ | .lookup s _ _ | .debugSession s | .addWrapper s _ _ _ | .removeWrapper s _ _
  | .debouncer s _ _ | .periodic s _ _ _ => onSession script s step
  | .get c _ | .snapshot c | .set c _ _ | .append c _ _ | .remove c _ _ | .update c _ _
  | .add c _ _ | .beginBatch c _ _ | .batch c _ | .listen c _ _ _ _ | .unlisten c _ | .destroy c
  | .phase c | .ref c | .identify c | .owner c | .same c _ | .showText c _
  | .debugComponent c => onComponent script c step
  | .call d _ | .isPending d => onDebouncer d step
  | .start p | .clear p | .reset p | .isCleared p => onPeriodic p step

/-- The outcome of a step. -/
def Step.outcome (script : Script) (step : Step) : Program (Except Failure Json) :=
  (step.attempt script).run

/-- Runs the steps of a body and notes what each of them did. -/
def runBody (script : Script) (last : Json) : Body → Program (Except Failure Json)
  | [] => return .ok last
  | step :: rest => do
    let result ← step.outcome script
    let _ ← Prog.request (.note (.arr [.str "did", .str step.word, resultJson result]))
    match result with
    | .error f => return .error f
    | .ok v => runBody script v rest

/-! ## Callbacks -/

/-- Notes that code was called. -/
def noteCall (parts : List Json) : Program Unit :=
  Prog.request (.note (.arr parts))

/-- Steps run from now on for another scope, up to the end of the callback. -/
def enterScope (f : Scope → Scope) : Program Unit :=
  Prog.revise fun h => { h with scope := f h.scope }

/-- Steps run from now on for a component. -/
def enterSelf (c : ComponentId) : Program Unit :=
  enterScope fun scope => { scope with self := some c }

/-- Whether changes hold a field, with the value if one is given. -/
def holds (changes : Fields) (field : String) (equals : Option Json) : Bool :=
  match changes.get? field with
  | none => false
  | some v => equals.all v.same

/-- A whole number inside bounds. -/
def clampInt (min max : Option Int) (n : Int) : Int :=
  let n := match min with
    | some low => if n < low then low else n
    | none => n
  match max with
  | some high => if high < n then high else n
  | none => n

/-- Applies a rule to changes. -/
def Rule.apply (script : Script) (rule : Rule) (changes : Fields) :
    Program (Except String Fields) :=
  match rule with
  | .clamp field min max =>
    match (changes.get? field).bind Json.asInt64? with
    | some n => return .ok (changes.put field (.int (clampInt min max n)))
    | none => return .ok changes
  | .drop field equals =>
    return .ok (if holds changes field equals then changes.erase field else changes)
  | .abortIf field equals reason =>
    return if holds changes field equals then .error reason else .ok changes
  | .abortBelow field limit reason =>
    match (changes.get? field).bind Json.asInt64? with
    | some n => return if n < limit then .error reason else .ok changes
    | none => return .ok changes
  | .put field value => return .ok (changes.put field value)
  | .clear => return .ok []
  | .run field equals body => do
    if field.all (holds changes · equals) then
      let _ ← runBody script .null body
    return .ok changes

/-- Applies rules one after another. -/
def applyRules (script : Script) : List Rule → Fields → Program (Except String Fields)
  | [], changes => return .ok changes
  | rule :: rest, changes => do
    match ← rule.apply script changes with
    | .error reason => return .error reason
    | .ok changes => applyRules script rest changes

/-- What the initializer of a kind does. -/
def initHook (script : Script) (name : String) (c : ComponentId) :
    Program (Except ComponentError Unit) := do
  match (script.kinds.get? name).bind (·.init) with
  | none => return .ok ()
  | some body =>
    noteCall [.str "init", .int c]
    enterSelf c
    match ← runBody script .null body with
    | .ok _ => return .ok ()
    | .error (.component e) => return .error e
    | .error f => return .error (.aborted f.message)

/-- What the adjustment of a kind does. -/
def adjustHook (script : Script) (name : String) (c : ComponentId) (changes : Fields) :
    Program (Except String Fields) := do
  match (script.kinds.get? name).bind (·.adjust) with
  | none => return .ok changes
  | some rules =>
    noteCall [.str "adjust", .int c, .str (Json.obj changes).render]
    enterSelf c
    applyRules script rules changes

/-- What a kind does with a request. -/
def requestHook (script : Script) (name : String) (c : ComponentId) (payload : Json) :
    Program (Except Failure Unit) := do
  match (script.kinds.get? name).bind (·.request) with
  | none => return .error (Failure.noRequests c)
  | some body =>
    noteCall [.str "request", .int c, .str payload.render]
    enterScope fun _ => ⟨some c, some payload⟩
    return (← runBody script .null body).map fun _ => ()

/-- Runs the body of a timer, for what the advance of the clock runs for. -/
def timedBody (script : Script) (word label : String) (body : Body) :
    Program (Except Failure Json) := do
  noteCall [.str word, .str label]
  runBody script .null body

/-- The callbacks for the code of a scenario. -/
def callbacks (script : Script) : Callbacks Code Program where
  view code := viewOf script (.custom code)
  init code c :=
    match code with
    | .kind name => initHook script name c
    | _ => return .ok ()
  adjust code c changes :=
    match code with
    | .kind name => adjustHook script name c changes
    | _ => return .ok changes
  request code c payload :=
    match code with
    | .kind name => requestHook script name c payload
    | _ => return .error (Failure.noRequests c)
  listener code c changed :=
    match code with
    | .listener label body => do
      noteCall [.str "listener", .str label, .int c, textsJson changed]
      enterSelf c
      let _ ← runBody script .null body
    | _ => return ()
  task code :=
    match code with
    | .task label body => do
      let _ ← timedBody script "task" label body
    | _ => return ()
  body code :=
    match code with
    | .body body => runBody script .null body
    | .debounced label body => timedBody script "debounced" label body
    | .tick label body => timedBody script "tick" label body
    | _ => return .ok .null

/-! ## Scenarios -/

/-- How deep calls may nest, and how many timers an advance of the clock may run. -/
def fuel : Nat := 1000000

/-- The answer of a step: its outcome, and what happened meanwhile. -/
def answer (outcome : Json) (log : List Json) : Json :=
  match outcome with
  | .obj members => .obj (members ++ if log.isEmpty then [] else [("log", .arr log)])
  | other => other

/-- Plays one step of a scenario. -/
def playStep (script : Script) (b : Backend Code Handles) (step : Step) :
    Json × Backend Code Handles :=
  let (ending, after) := ((step.outcome script).execute (callbacks script) Handles.leave fuel).finish b
  let outcome := match ending with
    | .value result => resultJson result
    | .panicked p => panicJson p
    | .exhausted => failureJson (.other "Exhausted" "too many nested calls")
  (answer outcome ((after.trace.drop b.trace.length).map (eventJson after)), after)

/-- Plays steps one after another. -/
def playSteps (script : Script) (b : Backend Code Handles) : Body → List Json
  | [] => []
  | step :: rest =>
    let (answer, b) := playStep script b step
    answer :: playSteps script b rest

/-- Plays a scenario: the answers of its steps. -/
def Script.play (script : Script) : List Json :=
  playSteps script { store := {} } script.steps

end ViewSync.Scenario
