import ViewSync.Backend.State

/-!
# ViewSync.Backend.Timing

Timers, and the state of what is done later. A debouncer keeps the latest of the calls that came while its
window was open; a periodic task ticks once in every period until it is cleared.
-/

namespace ViewSync

namespace Backend

variable {Code Store : Type}

/-! ## Timers -/

/-- Sets a timer. -/
def schedule (b : Backend Code Store) (delay : Nat) (job : Job Code) :
    TimerId × Backend Code Store :=
  ((b.clock.schedule delay job).1, { b with clock := (b.clock.schedule delay job).2 })

/-- Takes a timer away and says whether it still waited. -/
def cancel (b : Backend Code Store) (id : TimerId) : Bool × Backend Code Store :=
  (b.clock.isPending id, { b with clock := b.clock.cancel id })

/-- Takes the next timer that is due up to the given time. -/
def takeDue (b : Backend Code Store) (target : Nat) : Option (Job Code) × Backend Code Store :=
  match b.clock.takeDue? target with
  | none => (none, b)
  | some (timer, clock) => (some timer.job, { b with clock := clock })

/-- The clock shows the given time. -/
def reach (b : Backend Code Store) (target : Nat) : Backend Code Store :=
  { b with clock := { b.clock with now := target } }

/-! ## Debouncers -/

/-- Makes a debouncer. -/
def newDebouncer (b : Backend Code Store) (s : SessionId) (window : Nat) :
    DebouncerId × Backend Code Store :=
  let id := b.debouncers.size
  (id, { b with debouncers := b.debouncers.insert id ⟨s, window, none, true⟩ })

/-- Calls a debouncer. The first call opens the window, a later one takes the place of the call that
waits. -/
def callDebouncer (b : Backend Code Store) (d : DebouncerId) (code : Code) : Backend Code Store :=
  match b.debouncers.get? d with
  | none => b
  | some debouncer =>
    let b := { b with
      debouncers := b.debouncers.insert d { debouncer with pending := some code } }
    if debouncer.pending.isSome then b else (b.schedule debouncer.window (.debounced d)).2

/-- Whether a call of a debouncer waits. -/
def callWaits (b : Backend Code Store) (d : DebouncerId) : Bool :=
  ((b.debouncers.get? d).bind (·.pending)).isSome

/-- Gives up the handle of a debouncer. -/
def releaseDebouncer (b : Backend Code Store) (d : DebouncerId) : Backend Code Store :=
  { b with debouncers := b.debouncers.modify d fun debouncer => { debouncer with held := false } }

/-! ## Periodic tasks -/

/-- Changes the state of a periodic task. -/
def modifyPeriodic (b : Backend Code Store) (p : PeriodicId) (f : Periodic Code → Periodic Code) :
    Backend Code Store :=
  { b with periodics := b.periodics.modify p f }

/-- Makes a periodic task, which does not run yet. -/
def newPeriodic (b : Backend Code Store) (s : SessionId) (period : Nat) (code : Code) :
    PeriodicId × Backend Code Store :=
  let id := b.periodics.size
  (id, { b with periodics := b.periodics.insert id ⟨s, period, code, none, false, true⟩ })

/-- Takes away the timer of a periodic task. -/
def disarm (b : Backend Code Store) (p : PeriodicId) : Backend Code Store :=
  match (b.periodics.get? p).bind (·.timer) with
  | none => b
  | some id => (b.modifyPeriodic p fun periodic => { periodic with timer := none }).cancel id |>.2

/-- Sets the timer of the next tick, in place of the one that waits. -/
def arm (b : Backend Code Store) (p : PeriodicId) : Backend Code Store :=
  match b.periodics.get? p with
  | none => b
  | some periodic =>
    let (id, b) := (b.disarm p).schedule periodic.period (.tick p)
    b.modifyPeriodic p fun periodic => { periodic with timer := some id }

/-- Starts a periodic task, or starts it anew. -/
def startPeriodic (b : Backend Code Store) (p : PeriodicId) : Backend Code Store :=
  (b.modifyPeriodic p fun periodic => { periodic with cleared := false }).arm p

/-- Clears a periodic task. -/
def clearPeriodic (b : Backend Code Store) (p : PeriodicId) : Backend Code Store :=
  (b.modifyPeriodic p fun periodic => { periodic with cleared := true }).disarm p

/-- Whether a periodic task is cleared. -/
def isCleared (b : Backend Code Store) (p : PeriodicId) : Bool :=
  ((b.periodics.get? p).map (·.cleared)).getD true

/-- Gives up the handle of a periodic task; its timer stays and does nothing. -/
def releasePeriodic (b : Backend Code Store) (p : PeriodicId) : Backend Code Store :=
  b.modifyPeriodic p fun periodic => { periodic with held := false }

/-- Takes the call that waits in a debouncer. -/
def takeCall (b : Backend Code Store) (d : DebouncerId) :
    Option (SessionId × Code) × Backend Code Store :=
  match b.debouncers.get? d with
  | some ⟨s, window, some code, held⟩ =>
    (some (s, code), { b with debouncers := b.debouncers.insert d ⟨s, window, none, held⟩ })
  | _ => (none, b)

/-- Takes the tick of a periodic task: there is none once the task is cleared or its handle is given up,
or when the session is closed. -/
def takeTick (b : Backend Code Store) (p : PeriodicId) :
    Option (SessionId × Code) × Backend Code Store :=
  match b.periodics.get? p with
  | none => (none, b)
  | some periodic =>
    if periodic.held then
      (if periodic.cleared ∨ (b.session periodic.session).isClosed then none
        else some (periodic.session, periodic.code),
        b.modifyPeriodic p fun periodic => { periodic with timer := none })
    else (none, b)

/-- Sets the timer of the next tick, unless the task was cleared or started anew in the meantime. -/
def rearm (b : Backend Code Store) (p : PeriodicId) : Backend Code Store :=
  match b.periodics.get? p with
  | some periodic => if ¬ periodic.cleared ∧ periodic.timer.isNone then b.arm p else b
  | none => b

end Backend

end ViewSync
