import ViewSync.Backend.Callbacks.Inbound

/-!
# ViewSync.Backend.Callbacks.Timing

The timers as the clock moves: a timer that is due runs while the clock shows its time, and what
debouncers and periodic tasks run, they run inside their session.
-/

namespace ViewSync.Callbacks

variable {Code Store : Type} (calls : Callbacks Code (Run Code Store))

/-- Runs a job. -/
def fire : Job Code → Run Code Store Unit
  | .task code => calls.task code
  | .debounced d => do
    match ← Run.step (.takeCall d) fun b => (b.takeCall d).1 with
    | none => return ()
    | some (s, code) =>
      let _ ← calls.run s (calls.body code)
      return ()
  | .tick p => do
    match ← Run.step (.takeTick p) fun b => (b.takeTick p).1 with
    | none => return ()
    | some (s, code) =>
      let _ ← calls.run s (calls.body code)
      Run.modify (.rearm p)

/-- Runs the timers that are due up to the given time, at most so many; the clock then shows that time. -/
def runDue (target : Nat) : Nat → Nat → Run Code Store Nat
  | 0, _ => Run.exhaust
  | fuel + 1, ran => do
    match ← Run.step (.takeDue target) fun b => (b.takeDue target).1 with
    | none =>
      Run.modify (.reach target)
      return ran
    | some job =>
      calls.fire job
      runDue target fuel (ran + 1)

/-- Moves the clock forward and says how many timers ran. -/
def advance (fuel : Nat) (by_ : Nat) : Run Code Store Nat := do
  let now ← Run.read (·.clock.now)
  calls.runDue (now + by_) fuel 0

end ViewSync.Callbacks
