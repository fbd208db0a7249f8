/-!
# ViewSync.Backend.Clock

A clock that moves only when it is told to, and the timers that wait for it. Timers wait in the order in
which they are due; of two that are due together the one set first comes first.
-/

namespace ViewSync

/-- The number of a timer. -/
abbrev TimerId := Nat

/-- A job and when it is due. -/
structure Timer (Job : Type) where
  due : Nat
  id : TimerId
  job : Job

/-- The time, in milliseconds, and the waiting timers. -/
structure Clock (Job : Type) where
  now : Nat := 0
  nextId : TimerId := 0
  /-- The waiting timers, the next one first. -/
  pending : List (Timer Job) := []

namespace Clock

variable {Job : Type}

/-- Puts a timer behind those that are due no later. -/
def place (timer : Timer Job) : List (Timer Job) → List (Timer Job)
  | [] => [timer]
  | t :: rest => if t.due ≤ timer.due then t :: place timer rest else timer :: t :: rest

/-- Sets a timer. -/
def schedule (clock : Clock Job) (delay : Nat) (job : Job) : TimerId × Clock Job :=
  (clock.nextId,
    { clock with
      nextId := clock.nextId + 1
      pending := place ⟨clock.now + delay, clock.nextId, job⟩ clock.pending })

/-- Whether a timer waits. -/
def isPending (clock : Clock Job) (id : TimerId) : Bool :=
  clock.pending.any (·.id = id)

/-- Takes a timer away. -/
def cancel (clock : Clock Job) (id : TimerId) : Clock Job :=
  { clock with pending := clock.pending.filter (·.id ≠ id) }

/-- Takes the next timer that is due up to the given time; the clock then shows when it was due. -/
def takeDue? (clock : Clock Job) (target : Nat) : Option (Timer Job × Clock Job) :=
  match clock.pending with
  | [] => none
  | timer :: rest =>
    if timer.due ≤ target then some (timer, { clock with now := timer.due, pending := rest })
    else none

end Clock

end ViewSync
