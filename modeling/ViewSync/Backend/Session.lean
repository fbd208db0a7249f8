import ViewSync.Backend.Component
import ViewSync.Backend.Table
import ViewSync.Wire.Config

/-!
# ViewSync.Backend.Session

A session serves one other end over one channel. It keeps the components that live, the views that the
other end knows, and the wrappers that are engaged while the session is active. The channel keeps every
frame that it accepts. A closed channel accepts nothing and says so; a channel without room refuses frames
without being closed, as a broken connection does.
-/

namespace ViewSync

/-! ## channels -/

/-- A channel and what it has accepted. -/
structure Channel where
  frames : List String := []
  closed : Bool := false
  /-- How many more frames the session may send; without a number there is no limit. -/
  room : Option Nat := none

namespace Channel

/-- Puts a frame on the channel. -/
def accept? (channel : Channel) (text : String) : Option Channel :=
  if channel.closed then none else some { channel with frames := channel.frames ++ [text] }

/-- Puts a frame of the session on the channel, if there is room for it. -/
def send? (channel : Channel) (text : String) : Option Channel :=
  match channel.room with
  | none => channel.accept? text
  | some 0 => none
  | some (n + 1) => { channel with room := some n }.accept? text

end Channel

/-! ## sessions -/

/-- The number of an instance of a wrapper. -/
abbrev InstanceId := Nat

/-- Where the instance of a wrapper comes from when it is engaged. -/
inductive WrapperSource where
  /-- One instance each time. -/
  | ready (instance_ : InstanceId)
  /-- A new instance each time. -/
  | factory (label : String)
deriving DecidableEq, Repr

/-- The state of a session. -/
structure Session where
  config : SessionConfig
  channel : Channel
  /-- Closed by the program, or after the channel refused a frame. -/
  closed : Bool := false
  /-- How many activations last. -/
  depth : Nat := 0
  /-- The components that live. -/
  arena : List ComponentId := []
  /-- The views that the other end knows. -/
  views : Table ViewRef ViewDefinition := .empty
  /-- The component that shows the latest failure. -/
  diagnostic : Option ComponentId := none
  /-- The wrappers to engage. -/
  wrappers : Table String WrapperSource := .empty
  /-- The wrappers that are engaged, in the order in which they were. -/
  engaged : Table String InstanceId := .empty
  /-- Whether the program holds a handle of the session. -/
  held : Bool := true

/-- A session sends nothing once it is closed or its channel is. -/
def Session.isClosed (s : Session) : Bool :=
  s.closed || s.channel.closed

end ViewSync
