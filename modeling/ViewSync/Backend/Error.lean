import ViewSync.View.Definition
import ViewSync.Wire.Change
import ViewSync.Wire.Message

/-!
# ViewSync.Backend.Error

What can go wrong with components, with sessions and in the code of an application, and the texts of
these failures.
-/

namespace ViewSync

/-- Why an operation on a component fails. -/
inductive ComponentError where
  | unknownField (id : ComponentId) (field : String)
  | notAList (field : String)
  | notInList (field : String) (value : Json)
  | destroyed (id : ComponentId)
  | noActiveSession
  /-- Batches do not nest. -/
  | batchAlreadyOpen (id : ComponentId)
  | actionInBatch (key : String)
  /-- A batch is flushed with the options it was opened with. -/
  | batchOptionsMismatch (id : ComponentId)
  /-- Two views with different compiled sources share a reference. -/
  | duplicateViewRef (ref : ViewRef)
  | keyCollision (field : String)
  /-- The view of the component does not compile. -/
  | compile (error : CompileError)
  /-- The adjustment of the component refused the update. -/
  | aborted (reason : String)

namespace ComponentError

/-- The error of a change set that a component cannot resolve. -/
def ofChange (id : ComponentId) : ChangeError → ComponentError
  | .unknownField field => .unknownField id field
  | .notAList field => .notAList field
  | .notInList field value => .notInList field value
  | .keyCollision field => .keyCollision field

/-- The name of an error. -/
def name : ComponentError → String
  | .unknownField .. => "UnknownField"
  | .notAList .. => "NotAList"
  | .notInList .. => "NotInList"
  | .destroyed .. => "Destroyed"
  | .noActiveSession => "NoActiveSession"
  | .batchAlreadyOpen .. => "BatchAlreadyOpen"
  | .actionInBatch .. => "ActionInBatch"
  | .batchOptionsMismatch .. => "BatchOptionsMismatch"
  | .duplicateViewRef .. => "DuplicateViewRef"
  | .keyCollision .. => "KeyCollision"
  | .compile .. => "Compile"
  | .aborted .. => "Aborted"

/-- The text of an error. -/
def message : ComponentError → String
  | .unknownField id field => "component " ++ toString id ++ " has no field '" ++ field ++ "'"
  | .notAList field => "field '" ++ field ++ "' does not hold a list"
  | .notInList field value => "value " ++ value.render ++ " is not in list '" ++ field ++ "'"
  | .destroyed id => "component " ++ toString id ++ " has been destroyed"
  | .noActiveSession => "no session is active on this thread"
  | .batchAlreadyOpen id => "component " ++ toString id ++ " already has an open batch"
  | .actionInBatch key => "list action '" ++ key ++ "' cannot be used inside a batch"
  | .batchOptionsMismatch id =>
    "component " ++ toString id ++ " has an open batch with different update options"
  | .duplicateViewRef ref =>
    "view reference '" ++ ref.render ++ "' is already registered with different source"
  | .keyCollision field => "change set sets '" ++ field ++ "' and a list action on it at once"
  | .compile error => error.message
  | .aborted reason => "update aborted: " ++ reason

end ComponentError

/-- Why an operation on a session fails. -/
inductive SessionError where
  | codec (error : Json.Error)
  /-- Only requests may come in. -/
  | unexpectedMessage (kind : Message.Kind)
  | unknownComponent (id : ComponentId)
  /-- A handler failed with the given text. -/
  | handler (text : String)
  /-- A handler panicked with the given text. -/
  | panicked (text : String)
  | duplicateWrapper (name : String)
  | unknownWrapper (name : String)

namespace SessionError

/-- The name of an error. -/
def name : SessionError → String
  | .codec .. => "Codec"
  | .unexpectedMessage .. => "UnexpectedMessage"
  | .unknownComponent .. => "UnknownComponent"
  | .handler .. => "Handler"
  | .panicked .. => "Panicked"
  | .duplicateWrapper .. => "DuplicateWrapper"
  | .unknownWrapper .. => "UnknownWrapper"

/-- The text of an error. -/
def message : SessionError → String
  | .codec error => "wire codec error: " ++ error.message
  | .unexpectedMessage kind => "unexpected '" ++ kind.word ++ "' message from mirror"
  | .unknownComponent id => "no component with id " ++ toString id
  | .handler text => "handler failed: " ++ text
  | .panicked text => "handler panicked: " ++ text
  | .duplicateWrapper name => "wrapper '" ++ name ++ "' is already registered"
  | .unknownWrapper name => "no wrapper named '" ++ name ++ "'"

end SessionError

/-- Why code of an application fails: with an error of the backend, or with one of its own. -/
inductive Failure where
  | component (error : ComponentError)
  | session (error : SessionError)
  /-- An error of the application: its name and its text. -/
  | other (name text : String)

/-- The name of a failure. -/
def Failure.name : Failure → String
  | .component error => error.name
  | .session error => error.name
  | .other name _ => name

/-- The text of a failure. -/
def Failure.message : Failure → String
  | .component error => error.message
  | .session error => error.message
  | .other _ text => text

/-- The failure of a request to a component that takes none. -/
def Failure.noRequests (id : ComponentId) : Failure :=
  .other "Handler" ("component " ++ toString id ++ " does not accept requests")

/-- What a panic carries. -/
inductive Panic where
  | text (message : String)
  | opaqueValue

/-- What a session says about a panic. -/
def Panic.message : Panic → String
  | .text message => message
  | .opaqueValue => "unknown panic"

end ViewSync
