import ViewSync.Backend.Program

/-!
# ViewSync.Proofs.Backend.Closure

Properties of runs that are kept when runs are put together (`Run.Closed`). The operations are put together
from looks and acts and from the code of the program, so such a property holds of every program that is
carried out (`Run.Closed.execute`), once it is known of the four operations with acts of their own: the
creation of a component, which begins and ends its construction, the batch that an operation keeps open as long
as it lasts, the report of a failure, by which a session takes a component to show failures in, and the move of
the clock, on which timers fire.
-/

namespace ViewSync

variable {Code Store α β : Type}

/-- The component on which an act begins or ends the batch of an operation. -/
def Act.brackets? : Act Code Store → Option ComponentId
  | .openBatch c .. | .commit c .scope | .drop c .scope => some c
  | _ => none

/-- Whether an act begins or ends the construction of a component. -/
def Act.isOfCreation : Act Code Store → Bool
  | .enroll .. | .activate _ | .abandon _ => true
  | _ => false

/-- Whether an act is part of the work that is done as the clock moves. -/
def Act.isOfClock : Act Code Store → Bool
  | .takeDue _ | .reach _ | .takeCall _ | .takeTick _ | .rearm _ => true
  | _ => false

/-- Whether an act may be part of any operation. The others begin or end the construction of a component or the
batch of an operation, give a session the component in which it shows failures, or are part of the work of the
clock; and only debouncers and periodic tasks set timers for jobs of their own. -/
def Act.isCommon : Act Code Store → Bool
  | .enroll .. | .activate _ | .abandon _ | .showFailuresIn .. => false
  | .schedule _ (.debounced _) | .schedule _ (.tick _) => false
  | a => a.brackets?.isNone && !a.isOfClock

namespace Run

/-- A property of runs that is kept when runs are put together. -/
structure Closed (Q : (α : Type) → Run Code Store α → Prop) : Prop where
  ended : ∀ {α} (ending : Ending α), Q α (.ended ending)
  look : ∀ {α} {next : Backend Code Store → Run Code Store α},
    (∀ b, Q α (next b)) → Q α (.look next)
  act : ∀ {α} {a : Act Code Store} {next : Run Code Store α},
    a.isCommon = true → Q α next → Q α (.act a next)
  andThen : ∀ {α β} {x : Run Code Store α} {f : Ending α → Run Code Store β},
    Q α x → (∀ ending, Q β (f ending)) → Q β (x.andThen f)

namespace Closed

variable {Q : (α : Type) → Run Code Store α → Prop} (closed : Closed Q)

include closed

theorem pure (a : α) : Q α (Pure.pure a) := closed.ended _

theorem bind {x : Run Code Store α} {f : α → Run Code Store β} (hx : Q α x) (hf : ∀ a, Q β (f a)) :
    Q β (x >>= f) :=
  closed.andThen hx fun
    | .value a => hf a
    | .panicked _ => closed.ended _
    | .exhausted => closed.ended _

theorem read (f : Backend Code Store → α) : Q α (Run.read f) :=
  closed.look fun _ => closed.ended _

theorem step {a : Act Code Store} (common : a.isCommon = true) (answer : Backend Code Store → α) :
    Q α (Run.step a answer) :=
  closed.look fun _ => closed.act common (closed.ended _)

theorem catchPanic {x : Run Code Store α} (hx : Q α x) : Q _ x.catchPanic :=
  closed.andThen hx fun
    | .value _ => closed.ended _
    | .panicked _ => closed.ended _
    | .exhausted => closed.ended _

theorem calling {leave : Store → Store → Store} {x : Run Code Store α} (hx : Q α x) :
    Q α (Run.calling leave x) :=
  closed.look fun _ => closed.andThen hx fun _ => closed.look fun _ => closed.act rfl (closed.ended _)

theorem inside {s : SessionId} {x : Run Code Store α} (hx : Q α x) : Q α (Run.inside s x) :=
  closed.look fun _ => closed.act rfl (closed.andThen hx fun _ => closed.act rfl (closed.ended _))

end Closed

end Run

namespace Callbacks

/-- A property that each callback has. -/
structure Each (Q : (α : Type) → Run Code Store α → Prop) (calls : Callbacks Code (Run Code Store)) :
    Prop where
  init : ∀ code c, Q _ (calls.init code c)
  adjust : ∀ code c changes, Q _ (calls.adjust code c changes)
  request : ∀ code c payload, Q _ (calls.request code c payload)
  listener : ∀ code c changed, Q _ (calls.listener code c changed)
  task : ∀ code, Q _ (calls.task code)
  body : ∀ code, Q _ (calls.body code)

namespace Each

variable {Q : (α : Type) → Run Code Store α → Prop} {calls : Callbacks Code (Run Code Store)}
  (h : calls.Each Q) (closed : Run.Closed Q)

include h closed

/-! ## updates -/

theorem announce (c : ComponentId) (changed : List String) (ls : List (Listener Code)) :
    Q _ (calls.announce c changed ls) := by
  induction ls with
  | nil => exact closed.pure ()
  | cons l rest ih =>
      unfold Callbacks.announce
      split
      · exact closed.bind (h.listener _ _ _) fun _ => ih
      · exact ih

theorem announceAny (c : ComponentId) (d : Option (Delivery Code)) : Q _ (calls.announceAny c d) := by
  cases d with
  | none => exact closed.pure ()
  | some d => exact h.announce closed c _ _

theorem adjusted (c : ComponentId) (changes : Fields) : Q _ (calls.adjusted c changes) := by
  refine closed.bind (closed.read _) fun component? => ?_
  cases component? with
  | none => exact closed.pure _
  | some component =>
      cases hphase : component.phase with
      | destroyed => simpa only [hphase] using closed.pure _
      | constructing => simpa only [hphase] using closed.pure _
      | active =>
          simp only [hphase]
          refine closed.bind ?_ fun outcome => ?_
          · cases component.kind with
            | custom code => exact h.adjust code c changes
            | diagnostic text => exact closed.pure _
          · cases outcome <;> exact closed.pure _

theorem update (c : ComponentId) (changes : Fields) (options : UpdateOptions) :
    Q _ (calls.update c changes options) := by
  unfold Callbacks.update
  split
  · exact closed.pure _
  · refine closed.bind (h.adjusted closed c changes) fun outcome => ?_
    cases outcome with
    | error e => exact closed.pure _
    | ok changes =>
        dsimp only
        split
        · exact closed.pure _
        · refine closed.bind (closed.step rfl _) fun delivery => ?_
          cases delivery with
          | error e => exact closed.pure _
          | ok delivery => exact closed.bind (h.announceAny closed c delivery) fun _ => closed.pure _

theorem commit (c : ComponentId) (number : Nat) : Q _ (calls.commit c (.handle number)) :=
  closed.bind (closed.step rfl _) fun _ => h.announceAny closed c _

/-- A batch keeps what its own acts keep. -/
theorem batch {ε : Type} {c : ComponentId} {fail : ComponentError → ε}
    (bracketed : ∀ {α} {a : Act Code Store} {next : Run Code Store α},
      a.brackets? = some c → Q α next → Q α (.act a next))
    {body : Run Code Store (Except ε α)} (hbody : Q _ body) : Q _ (calls.batch c fail body) := by
  have hstep : ∀ {α} {a : Act Code Store} (answer : Backend Code Store → α), a.brackets? = some c →
      Q α (Run.step a answer) := fun _ ha => closed.look fun _ => bracketed ha (closed.ended _)
  refine closed.bind (hstep _ rfl) fun opened => ?_
  cases opened with
  | error e => exact closed.pure _
  | ok _ =>
      have hcleaned : Q _ (body.onPanic (.drop c .scope)) := closed.andThen hbody fun
        | .value _ => closed.ended _
        | .panicked _ => bracketed rfl (closed.ended _)
        | .exhausted => closed.ended _
      refine closed.bind hcleaned fun outcome => ?_
      cases outcome with
      | error e => exact closed.bind (hstep _ rfl) fun _ => closed.pure _
      | ok a =>
          refine closed.bind ?_ fun _ => closed.pure _
          exact closed.bind (hstep _ rfl) fun _ => h.announceAny closed c _

theorem listen (c : ComponentId) (fields : Option (List String)) (immediate : Bool) (code : Code) :
    Q _ (calls.listen c fields immediate code) := by
  refine closed.bind (closed.step rfl _) fun added => ?_
  cases added with
  | none => exact closed.pure _
  | some added =>
      dsimp only
      split
      · exact closed.bind (h.announce closed c _ _) fun _ => closed.pure _
      · exact closed.pure _

/-! ## first values -/

theorem showText (c : ComponentId) (text : String) : Q _ (calls.showText c text) :=
  closed.bind (closed.read _) fun _ => h.update closed c _ _

theorem initKind (kind : Kind Code) (c : ComponentId) : Q _ (calls.initKind kind c) := by
  cases kind with
  | custom code => exact h.init code c
  | diagnostic text => exact h.showText closed c text

/-! ## creation -/

omit h in
/-- A creation keeps what its own acts and the batch of the first values keep. -/
theorem create (batches : ∀ c kind, Q _ (calls.batch c id (calls.initKind kind c)))
    (creating : ∀ {α} {a : Act Code Store} {next : Run Code Store α},
      a.isOfCreation = true → Q α next → Q α (.act a next))
    (s : SessionId) (kind : Kind Code) : Q _ (calls.create s kind) := by
  have hstep : ∀ {α} {a : Act Code Store} (answer : Backend Code Store → α), a.isOfCreation = true →
      Q α (Run.step a answer) := fun _ ha => closed.look fun _ => creating ha (closed.ended _)
  refine closed.inside ?_
  cases (calls.viewOf kind).definition.1 with
  | error e => exact closed.pure _
  | ok d =>
      refine closed.bind (hstep _ rfl) fun outcome => ?_
      cases outcome with
      | error e => exact closed.pure _
      | ok id =>
          refine closed.bind (batches id kind) fun outcome => ?_
          cases outcome with
          | error e => exact closed.bind (hstep _ rfl) fun _ => closed.pure _
          | ok _ => exact closed.bind (hstep _ rfl) fun _ => closed.pure _

/-- A report keeps what creations keep, and the act by which the session takes the new component. -/
theorem report (creates : ∀ s kind, Q _ (calls.create s kind))
    (shows : ∀ {α s c} {next : Run Code Store α}, Q α next → Q α (.act (.showFailuresIn s c) next))
    (s : SessionId) (error : SessionError) : Q _ (calls.report s error) := by
  refine closed.bind (closed.read _) fun session => ?_
  split
  · refine closed.bind (closed.read _) fun shown => ?_
    cases shown with
    | some c => exact closed.bind (h.showText closed c _) fun _ => closed.pure _
    | none =>
        refine closed.bind (creates s _) fun outcome => ?_
        cases outcome with
        | error e => exact closed.pure _
        | ok c => exact closed.look fun _ => shows (closed.ended _)
  · exact closed.pure _

/-! ## frames that come in, and code inside a session -/

theorem handleRequest (c : ComponentId) (payload : Json) : Q _ (calls.handleRequest c payload) := by
  refine closed.bind (closed.read _) fun component? => ?_
  cases component? with
  | none => exact closed.pure _
  | some component =>
      dsimp only
      split
      · exact closed.pure _
      · cases component.kind with
        | custom code => exact h.request code c payload
        | diagnostic text => exact closed.pure _

theorem dispatch (s : SessionId) (text : String) : Q _ (calls.dispatch s text) := by
  refine closed.inside ?_
  split
  · exact closed.pure _
  · refine closed.bind (closed.read _) fun known => ?_
    split
    · refine closed.bind (h.handleRequest closed _ _) fun outcome => ?_
      cases outcome <;> exact closed.pure _
    · exact closed.pure _
  · exact closed.pure _

/-! ## with the other operations -/

variable (creates : ∀ s kind, Q _ (calls.create s kind)) (reports : ∀ s error, Q _ (calls.report s error))

omit h in
include creates in
theorem createCurrent (kind : Kind Code) : Q _ (calls.createCurrent kind) := by
  refine closed.bind (closed.read _) fun current => ?_
  cases current with
  | none => exact closed.pure _
  | some s => exact creates s kind

include reports

theorem onMessage (s : SessionId) (text : String) : Q _ (calls.onMessage s text) := by
  refine closed.inside ?_
  refine closed.bind (closed.catchPanic (h.dispatch closed s text)) fun outcome => ?_
  split
  · exact closed.pure _
  · exact reports s _
  · exact reports s _

omit h in
theorem run (s : SessionId) {body : Run Code Store (Except Failure Json)} (hbody : Q _ body) :
    Q _ (calls.run s body) := by
  refine closed.inside ?_
  refine closed.bind (closed.catchPanic hbody) fun outcome => ?_
  split
  · exact closed.pure _
  · exact closed.bind (reports s _) fun _ => closed.pure _
  · exact closed.bind (reports s _) fun _ => closed.pure _

section

variable (clocked : ∀ {α} {a : Act Code Store} {next : Run Code Store α},
  a.isOfClock = true → Q α next → Q α (.act a next))

include clocked

theorem fire (job : Job Code) : Q _ (calls.fire job) := by
  have hstep : ∀ {α} {a : Act Code Store} (answer : Backend Code Store → α), a.isOfClock = true →
      Q α (Run.step a answer) := fun _ ha => closed.look fun _ => clocked ha (closed.ended _)
  cases job with
  | task code => exact h.task code
  | debounced d =>
      refine closed.bind (hstep _ rfl) fun call => ?_
      split
      · exact closed.pure _
      · exact closed.bind (run closed reports _ (h.body _)) fun _ => closed.pure _
  | tick p =>
      refine closed.bind (hstep _ rfl) fun call => ?_
      split
      · exact closed.pure _
      · exact closed.bind (run closed reports _ (h.body _)) fun _ => hstep _ rfl

/-- A move of the clock keeps what its own acts keep. -/
theorem advance (fuel by_ : Nat) : Q _ (calls.advance fuel by_) := by
  have hstep : ∀ {α} {a : Act Code Store} (answer : Backend Code Store → α), a.isOfClock = true →
      Q α (Run.step a answer) := fun _ ha => closed.look fun _ => clocked ha (closed.ended _)
  refine closed.bind (closed.read _) fun now => ?_
  generalize 0 = ran
  induction fuel generalizing ran with
  | zero => exact closed.ended _
  | succ fuel ih =>
      refine closed.bind (hstep _ rfl) fun job => ?_
      cases job with
      | none => exact closed.bind (hstep _ rfl) fun _ => closed.pure _
      | some job => exact closed.bind (h.fire closed reports clocked job) fun _ => ih (ran + 1)

end

include creates in
/-- The property holds of each request of a program. -/
theorem perform (batches : ∀ c body, Q _ (calls.batch c .component (calls.body body))) {fuel : Nat}
    (advances : ∀ by_, Q _ (calls.advance fuel by_)) (r : Request Code Store) :
    Q _ (calls.perform fuel r) := by
  cases r with
  | look => exact closed.read id
  | panic p => exact closed.ended _
  | create s kind => exact creates s kind
  | createCurrent kind => exact createCurrent closed creates kind
  | onMessage s text => exact h.onMessage closed reports s text
  | dispatch s text => exact h.dispatch closed s text
  | run s body => exact run closed reports s (h.body body)
  | update c changes options => exact h.update closed c changes options
  | commit c number => exact h.commit closed c _
  | batch c body => exact batches c body
  | listen c fields immediate code => exact h.listen closed c fields immediate code
  | showText c text => exact h.showText closed c text
  | advance by_ => exact advances by_
  | _ => exact closed.step rfl _

end Each

end Callbacks

/-- The views of components stay when callbacks are put in another form. -/
theorem viewOf_map {M N : Type → Type} (f : {α : Type} → M α → N α) (calls : Callbacks Code M) :
    (calls.map f).viewOf = calls.viewOf := by
  funext kind
  cases kind <;> rfl

/-- The callbacks of a program as they run, with calls nested to the given depth. -/
def Callbacks.running (calls : Callbacks Code (Prog Code Store)) (leave : Store → Store → Store)
    (fuel : Nat) : Callbacks Code (Run Code Store) :=
  calls.map fun call => (call.execute calls leave fuel).calling leave

theorem viewOf_running (calls : Callbacks Code (Prog Code Store)) (leave : Store → Store → Store) (fuel : Nat) :
    (calls.running leave fuel).viewOf = calls.viewOf :=
  viewOf_map _ calls

/-- What holds of programs, and is kept when runs are put together, holds of the code that they call. -/
theorem Run.Closed.each_running {Q : (α : Type) → Run Code Store α → Prop} (closed : Run.Closed Q)
    {calls : Callbacks Code (Prog Code Store)} {leave : Store → Store → Store} {fuel : Nat}
    (executed : ∀ {α} (p : Prog Code Store α), Q α (p.execute calls leave fuel)) :
    (calls.running leave fuel).Each Q := by
  constructor
  all_goals
    intros
    exact closed.calling (executed _)

/-- What is kept when runs are put together, and known of the creation of components, of batches, of the report
of failures and of moves of the clock whenever each callback has it, holds of every program that is carried
out. -/
theorem Run.Closed.execute {Q : (α : Type) → Run Code Store α → Prop} (closed : Run.Closed Q)
    {calls : Callbacks Code (Prog Code Store)} {leave : Store → Store → Store}
    (own : ∀ fuel, (calls.running leave fuel).Each Q →
      (∀ s kind, Q _ ((calls.running leave fuel).create s kind)) ∧
      (∀ s error, Q _ ((calls.running leave fuel).report s error)) ∧
      (∀ c body, Q _ ((calls.running leave fuel).batch c .component ((calls.running leave fuel).body body))) ∧
      ∀ by_, Q _ ((calls.running leave fuel).advance fuel by_))
    (fuel : Nat) (p : Prog Code Store α) : Q α (p.execute calls leave fuel) := by
  induction fuel generalizing α with
  | zero => exact closed.ended _
  | succ fuel ih =>
      have heach : (calls.running leave fuel).Each Q := closed.each_running ih
      obtain ⟨creates, reports, batches, advances⟩ := own fuel heach
      unfold Prog.execute
      induction p with
      | done a => exact closed.ended _
      | ask r next ihp =>
          exact closed.bind (heach.perform closed creates reports batches advances r)
            fun answer => ihp answer

end ViewSync
