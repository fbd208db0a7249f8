import ViewSync.Scenario.Step

/-!
# ViewSync.Scenario.Handles

The names that a scenario has given to things, and what its steps are running for: the component of the
innermost running hook or listener, and the payload of the innermost running request.
-/

namespace ViewSync.Scenario

/-- What steps run for. -/
structure Scope where
  self : Option ComponentId
  payload : Option Json

/-- Outside of hooks and listeners. -/
def Scope.outer : Scope := ⟨none, none⟩

/-- The names of a scenario. -/
structure Handles where
  sessions : Table String SessionId := .empty
  /-- The names under which sessions were opened. -/
  openedAs : Table SessionId String := .empty
  components : Table String ComponentId := .empty
  guards : Table String GuardId := .empty
  batches : Table String (ComponentId × Nat) := .empty
  listeners : Table String ListenerId := .empty
  timers : Table String TimerId := .empty
  debouncers : Table String DebouncerId := .empty
  periodics : Table String PeriodicId := .empty
  wrappers : Table String WrapperSource := .empty
  /-- What the running step runs for. -/
  scope : Scope := .outer

namespace Handles

/-- The names at the end of a callback: steps run again for what they ran for before it. -/
def leave (before after : Handles) : Handles :=
  { after with scope := before.scope }

/-- The component of a name; `self` names the one that the step runs for. -/
def component? (h : Handles) (c : String) : Option ComponentId :=
  if c = "self" then h.scope.self else h.components.get? c

/-- The least name of a session: a question mark when it has none any more. -/
def nameOf (h : Handles) (s : SessionId) : String :=
  match (h.sessions.entries.filter (·.2 = s)).map (·.1) with
  | [] => "?"
  | first :: rest => rest.foldl (fun a b => if b < a then b else a) first

/-- Whether a session has a name. -/
def namesSession (h : Handles) (s : SessionId) : Bool :=
  h.sessions.entries.any (·.2 = s)

end Handles

/-- The failure of a step that names something unknown. -/
def noHandle : Failure := .other "NoHandle" "no handle"

/-- The failure of a step with a text of its own. -/
def failed (text : String) : Failure := .other "Fail" text

/-! ## Answers -/

/-- How a failure is shown: with its name and its text, and with the category of an unreadable frame. -/
def failureJson (f : Failure) : Json :=
  .obj <| ("error", .str f.name) :: match f with
    | .session (.codec e) =>
      [("category", .str e.category.word), ("message", .str f.message)]
    | .other "NoHandle" _ => []
    | _ => [("message", .str f.message)]

/-- How the outcome of a step is shown. -/
def resultJson : Except Failure Json → Json
  | .ok v => .obj [("r", v)]
  | .error f => failureJson f

/-- How a panic that no session caught is shown. -/
def panicJson (p : Panic) : Json :=
  .obj [("error", .str "Panic"),
    ("message", match p with
      | .text message => .str message
      | .opaqueValue => .null)]

/-- A list of texts. -/
def textsJson (texts : List String) : Json :=
  .arr (texts.map .str)

/-- How an event is shown in the log of a step. -/
def eventJson (b : Backend Code Handles) : Event → Json
  | .sent s m =>
    .arr [.str "send", .str ((b.store.openedAs.get? s).getD ""), .str m.encode]
  | .entered _ _ i times => .arr [.str "enter", .str (label i), .int times]
  | .exited _ _ i times => .arr [.str "exit", .str (label i), .int times]
  | .built i => .arr [.str "built", .str (label i)]
  | .note entry => entry
where
  label (i : InstanceId) : String := ((b.instances.get? i).map (·.label)).getD ""

end ViewSync.Scenario
