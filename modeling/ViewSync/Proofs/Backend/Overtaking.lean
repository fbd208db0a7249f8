import ViewSync.Proofs.Backend.Scheduling
import ViewSync.Proofs.Backend.Timekeeping

/-!
# ViewSync.Proofs.Backend.Overtaking

The time in the course of any program. A move of the clock fixes its target when it begins, and the clock shows that
target when the move ends. Code that runs because the clock moves may move it as well, to a later time; then the outer
move is overtaken, and at its end the clock goes back.

* `Moving`, `Moved` — the acts of a move of the clock, up to some point or up to its end;
* `Run.InMoves` — an act that moves the clock belongs to a move that began in the same course;
* `Run.Unmoved` — the courses of code that does not ask for moves;
* `KeepsTime`, `clock_back_iff_overtaken` — no timer waits overdue, and the clock goes back just where a move ends
  that was overtaken.
-/

namespace ViewSync

variable {Code Store α β : Type}

namespace Act

/-- Whether an act moves the clock. -/
def movesClock : Act Code Store → Bool
  | .takeDue _ | .reach _ => true
  | _ => false

theorem movesClock_of_not_isTimed {a : Act Code Store} (h : a.isTimed = false) : a.movesClock = false := by
  cases a with
  | takeDue | reach => cases h
  | _ => rfl

end Act

/-! ## what runs because the clock moves -/

namespace Callbacks.Each

variable {Q : (α : Type) → Run Code Store α → Prop} {calls : Callbacks Code (Run Code Store)} (h : calls.Each Q)
  (closed : Run.Closed Q)

include h closed

/-- What acts keep that have nothing to do with timers, the operations keep that do not move the clock. -/
theorem untimed (act : ∀ {α} {a : Act Code Store} {next : Run Code Store α},
    a.isTimed = false → Q α next → Q α (.act a next)) :
    (∀ s kind, Q _ (calls.create s kind)) ∧ (∀ s error, Q _ (calls.report s error)) ∧
      ∀ c body, Q _ (calls.batch c .component (calls.body body)) := by
  have hbatches : ∀ {α ε} (c : ComponentId) (fail : ComponentError → ε) {body : Run Code Store (Except ε α)},
      Q _ body → Q _ (calls.batch c fail body) :=
    fun c fail => h.batch closed fun ha => act (Act.isTimed_of_brackets ha)
  have hcreates := create closed (fun c kind => hbatches c id (h.initKind closed kind c))
    fun ha => act (Act.isTimed_of_isOfCreation ha)
  exact ⟨hcreates, h.report closed hcreates (act rfl), fun c body => hbatches c _ (h.body body)⟩

/-- What acts keep that do not move the clock, the work of a timer keeps. -/
theorem work (reports : ∀ s error, Q _ (calls.report s error))
    (act : ∀ {α} {a : Act Code Store} {next : Run Code Store α},
      a.movesClock = false → Q α next → Q α (.act a next)) (job : Job Code) : Q _ (calls.fire job) := by
  have hstep : ∀ {α} {a : Act Code Store} (answer : Backend Code Store → α), a.movesClock = false →
      Q α (Run.step a answer) := fun _ still => closed.look fun _ => act still (closed.ended _)
  cases job with
  | task code => exact h.task code
  | debounced d =>
      refine closed.bind (hstep _ rfl) fun call => ?_
      split
      · exact closed.pure _
      · exact closed.bind (run closed reports _ (h.body _)) fun _ => closed.pure _
  | tick p =>
      refine closed.bind (hstep _ rfl) fun call => ?_
      split
      · exact closed.pure _
      · exact closed.bind (run closed reports _ (h.body _)) fun _ => hstep _ rfl

end Callbacks.Each

/-! ## moves of the clock -/

/-- From this state on, the acts are the first ones of a move of the clock to this time, at some depth of nesting. -/
def Moving (calls : Callbacks Code (Prog Code Store)) (leave : Store → Store → Store) (b : Backend Code Store)
    (target : Nat) (acts : List (Act Code Store)) : Prop :=
  ∃ depth by_, acts <+: ((calls.running leave depth).advance depth by_).acts b ∧ target = b.clock.now + by_

/-- From this state on, the acts are those of a move of the clock to this time, which comes to its end. -/
def Moved (calls : Callbacks Code (Prog Code Store)) (leave : Store → Store → Store) (b : Backend Code Store)
    (target : Nat) (acts : List (Act Code Store)) : Prop :=
  ∃ depth by_ ran, ((calls.running leave depth).advance depth by_).Does b acts ran ∧ target = b.clock.now + by_

theorem Moved.moving {calls : Callbacks Code (Prog Code Store)} {leave : Store → Store → Store}
    {b : Backend Code Store} {target : Nat} {acts : List (Act Code Store)} (h : Moved calls leave b target acts) :
    Moving calls leave b target acts := by
  obtain ⟨depth, by_, ran, hdoes, htarget⟩ := h
  exact ⟨depth, by_, hdoes.acts_eq ▸ List.prefix_refl _, htarget⟩

namespace Act

/-- An act that moves the clock belongs, behind these acts, to a move that began in this state: that move takes a
timer, or it ends. -/
def InMove (calls : Callbacks Code (Prog Code Store)) (leave : Store → Store → Store) (b : Backend Code Store)
    (block : List (Act Code Store)) : Act Code Store → Prop
  | .takeDue target => Moving calls leave b target (block ++ [.takeDue target])
  | .reach target => Moved calls leave b target (block ++ [.reach target])
  | _ => True

variable {calls : Callbacks Code (Prog Code Store)} {leave : Store → Store → Store}

theorem inMove_of_still {a : Act Code Store} (still : a.movesClock = false) (b : Backend Code Store)
    (block : List (Act Code Store)) : a.InMove calls leave b block := by
  cases a with
  | takeDue | reach => cases still
  | _ => trivial

end Act

namespace Backend

/-! ## acts and the time -/

theorem now_disarm (b : Backend Code Store) (p : PeriodicId) : (b.disarm p).clock.now = b.clock.now := by
  unfold disarm
  split <;> rfl

theorem now_arm (b : Backend Code Store) (p : PeriodicId) : (b.arm p).clock.now = b.clock.now := by
  unfold arm
  split
  · rfl
  · exact now_disarm b p

/-- The other acts leave the time as it is. -/
theorem now_apply {a : Act Code Store} (still : a.movesClock = false) (b : Backend Code Store) :
    (a.apply b).clock.now = b.clock.now := by
  cases ha : a.isOfTiming with
  | false => exact congrArg (·.1.now) (timing_apply ha b)
  | true =>
      cases a with
      | takeDue | reach => cases still
      | callDebouncer d code =>
          show (b.callDebouncer d code).clock.now = _
          unfold callDebouncer
          split
          · rfl
          · dsimp only
            split <;> rfl
      | takeCall d =>
          show (b.takeCall d).2.clock.now = _
          unfold takeCall
          split <;> rfl
      | startPeriodic p => exact now_arm _ p
      | clearPeriodic p => exact now_disarm _ p
      | takeTick p =>
          show (b.takeTick p).2.clock.now = _
          unfold takeTick
          split
          · rfl
          · split <;> rfl
      | rearm p =>
          show (b.rearm p).clock.now = _
          unfold rearm
          split
          · split
            · exact now_arm b p
            · rfl
          · rfl
      | schedule | cancel | newDebouncer | releaseDebouncer | newPeriodic | releasePeriodic => rfl
      | _ => cases ha

theorem now_play {b : Backend Code Store} {acts : List (Act Code Store)} (still : ∀ a ∈ acts, a.movesClock = false) :
    (b.play acts).clock.now = b.clock.now := by
  induction acts generalizing b with
  | nil => rfl
  | cons a acts ih =>
      obtain ⟨ha, hrest⟩ := List.forall_mem_cons.1 still
      exact (ih hrest).trans (now_apply ha b)

/-- A timer that fires is due up to the time to which the clock is moved, and the clock shows when it was due. -/
theorem now_takeDue (b : Backend Code Store) (target : Nat) :
    ((Act.takeDue target).apply b).clock.now = b.clock.now ∨
      ∃ t, (Act.takeDue target).fires? b = some t ∧ t ∈ b.clock.pending ∧ t.due ≤ target ∧
        ((Act.takeDue target).apply b).clock.now = t.due := by
  cases hdue : b.clock.takeDue? target with
  | none => exact .inl (by rw [apply_takeDue_of_none hdue])
  | some taken =>
      obtain ⟨t, clock⟩ := taken
      obtain ⟨hle, hpending, hclock⟩ := Clock.takeDue?_eq_some hdue
      refine .inr ⟨t, by simp [Act.fires?, hdue], by simp [hpending], hle, ?_⟩
      rw [apply_takeDue hdue, hclock]

end Backend

/-- Whatever moves the clock in the course of the run belongs to a move that began in the course. -/
def Run.InMoves (calls : Callbacks Code (Prog Code Store)) (leave : Store → Store → Store) (x : Run Code Store α) :
    Prop :=
  ∀ b q a, q ++ [a] <+: x.acts b → ∃ start block, q = start ++ block ∧ a.InMove calls leave (b.play start) block

section

variable {calls : Callbacks Code (Prog Code Store)} {leave : Store → Store → Store}

namespace Run

theorem InMoves.act {a : Act Code Store} {next : Run Code Store α} (still : a.movesClock = false)
    (h : next.InMoves calls leave) : (Run.act a next).InMoves calls leave := by
  intro b q a' hq
  cases q with
  | nil =>
      obtain rfl : a' = a := (List.cons_prefix_cons.1 hq).1
      exact ⟨[], [], rfl, Act.inMove_of_still still _ _⟩
  | cons x q =>
      obtain ⟨rfl, hrest⟩ := List.cons_prefix_cons.1 hq
      obtain ⟨start, block, rfl, hmove⟩ := h _ q a' hrest
      exact ⟨x :: start, block, rfl, hmove⟩

theorem closed_inMoves : Closed fun α (x : Run Code Store α) => x.InMoves calls leave where
  ended _ b q a hq := by simp [acts] at hq
  look h b := h b b
  act common h := .act (Act.movesClock_of_not_isTimed (Act.isTimed_of_isCommon common)) h
  andThen hx hf b q a hq := by
    rw [acts_andThen] at hq
    obtain hin | ⟨q, rfl, hbehind⟩ := prefix_concat_append hq
    · exact hx b q a hin
    · obtain ⟨start, block, rfl, hmove⟩ := hf _ _ q a hbehind
      refine ⟨_ ++ start, block, (List.append_assoc _ _ _).symm, ?_⟩
      rwa [Backend.play_append, ← finish_eq_play]

end Run

/-! ## the moves in a course -/

section

variable {running : Callbacks Code (Run Code Store)}
  (h : running.Each fun α (x : Run Code Store α) => x.InMoves calls leave)
  (reports : ∀ s error, (running.report s error).InMoves calls leave)

include h reports

/-- What moves the clock while timers are run belongs to a move of their work, or takes the next timer, or is the
end of it all. -/
theorem inMoves_runDue {target fuel ran : Nat} {b : Backend Code Store} {q : List (Act Code Store)}
    {a : Act Code Store} (hq : q ++ [a] <+: (running.runDue target fuel ran).acts b) :
    (∃ start block, q = start ++ block ∧ a.InMove calls leave (b.play start) block) ∨ a = .takeDue target ∨
      a = .reach target ∧ ∃ ran', (running.runDue target fuel ran).Does b (q ++ [a]) ran' := by
  refine (running.runDue_cases hq).imp_left ?_
  rintro ⟨start, t, work, rfl, -, hwork⟩
  obtain ⟨before, block, rfl, hmove⟩ := h.work Run.closed_inMoves reports .act t.job _ work a hwork
  exact ⟨start ++ .takeDue target :: before, block, by simp, by simpa using hmove⟩

end

/-- Whatever moves the clock in the course of a program belongs to a move that began in the course. -/
theorem inMoves_execute (calls : Callbacks Code (Prog Code Store)) (leave : Store → Store → Store) (fuel : Nat)
    (p : Prog Code Store α) : (p.execute calls leave fuel).InMoves calls leave := by
  have closed : Run.Closed fun α (x : Run Code Store α) => x.InMoves calls leave := Run.closed_inMoves
  refine closed.execute (fun fuel heach => ?_) fuel p
  obtain ⟨hcreates, hreports, hbatches⟩ := heach.untimed closed fun ha =>
    .act (Act.movesClock_of_not_isTimed ha)
  refine ⟨hcreates, hreports, hbatches, fun by_ b q a hq => ?_⟩
  obtain hinner | rfl | ⟨rfl, ran, hdoes⟩ := inMoves_runDue heach hreports hq
  · exact hinner
  · exact ⟨[], q, rfl, fuel, by_, hq, rfl⟩
  · exact ⟨[], q, rfl, fuel, by_, ran, ⟨hdoes.acts_eq, hdoes.ending_eq⟩, rfl⟩

theorem inMoves_advance (calls : Callbacks Code (Prog Code Store)) (leave : Store → Store → Store)
    (depth by_ : Nat) : ((calls.running leave depth).advance depth by_).InMoves calls leave := by
  intro b q a hq
  -- the move is what is done for a program that asks for nothing else
  refine inMoves_execute calls leave (depth + 1) (Prog.request (.advance by_)) b q a (hq.trans ?_)
  have hacts : ((Prog.request (.advance by_)).execute calls leave (depth + 1)).acts b = _ :=
    Run.acts_andThen ((calls.running leave depth).advance depth by_) _ b
  rw [hacts]
  exact List.prefix_append _ _

end

/-! ## code that does not move the clock -/

/-- Whether a request moves the clock. -/
def Request.movesClock : Request Code Store → Bool
  | .advance _ => true
  | _ => false

/-- The code that is called asks for no moves of the clock. -/
structure Callbacks.Unmoving (calls : Callbacks Code (Prog Code Store)) : Prop where
  init : ∀ code c, (calls.init code c).Only (·.movesClock = false)
  adjust : ∀ code c changes, (calls.adjust code c changes).Only (·.movesClock = false)
  request : ∀ code c payload, (calls.request code c payload).Only (·.movesClock = false)
  listener : ∀ code c changed, (calls.listener code c changed).Only (·.movesClock = false)
  task : ∀ code, (calls.task code).Only (·.movesClock = false)
  body : ∀ code, (calls.body code).Only (·.movesClock = false)

/-- No act of the run moves the clock. -/
def Run.Unmoved (x : Run Code Store α) : Prop :=
  ∀ b, ∀ a ∈ x.acts b, a.movesClock = false

theorem Run.Unmoved.act {a : Act Code Store} {next : Run Code Store α} (still : a.movesClock = false)
    (h : next.Unmoved) : (Run.act a next).Unmoved :=
  fun b => List.forall_mem_cons.2 ⟨still, h (a.apply b)⟩

theorem Run.closed_unmoved : Run.Closed fun α (x : Run Code Store α) => x.Unmoved where
  ended _ _ _ ha := absurd ha List.not_mem_nil
  look h b := h b b
  act common h := .act (Act.movesClock_of_not_isTimed (Act.isTimed_of_isCommon common)) h
  andThen hx hf b := by
    rw [acts_andThen]
    exact List.forall_mem_append.2 ⟨hx b, hf _ _⟩

section

variable {calls : Callbacks Code (Prog Code Store)}

theorem Callbacks.Unmoving.each (only : calls.Unmoving) {leave : Store → Store → Store} {fuel : Nat}
    (executed : ∀ {α} {p : Prog Code Store α}, p.Only (·.movesClock = false) →
      (p.execute calls leave fuel).Unmoved) :
    (calls.running leave fuel).Each fun α (x : Run Code Store α) => x.Unmoved where
  init code c := Run.closed_unmoved.calling (executed (only.init code c))
  adjust code c changes := Run.closed_unmoved.calling (executed (only.adjust code c changes))
  request code c payload := Run.closed_unmoved.calling (executed (only.request code c payload))
  listener code c changed := Run.closed_unmoved.calling (executed (only.listener code c changed))
  task code := Run.closed_unmoved.calling (executed (only.task code))
  body code := Run.closed_unmoved.calling (executed (only.body code))

/-- Code that asks for no moves of the clock, and calls only such code, moves it nowhere. -/
theorem Callbacks.Unmoving.execute (only : calls.Unmoving) (leave : Store → Store → Store) (fuel : Nat)
    {p : Prog Code Store α} (hp : p.Only (·.movesClock = false)) : (p.execute calls leave fuel).Unmoved := by
  have closed : Run.Closed fun α (x : Run Code Store α) => x.Unmoved := Run.closed_unmoved
  induction fuel generalizing α with
  | zero => exact closed.ended _
  | succ fuel ih =>
      have heach := only.each ih
      obtain ⟨hcreates, hreports, hbatches⟩ := heach.untimed closed fun ha =>
        .act (Act.movesClock_of_not_isTimed ha)
      have hperform : ∀ r : Request Code Store, r.movesClock = false →
          ((calls.running leave fuel).perform fuel r).Unmoved := by
        intro r hr
        -- the timers that a move may run are of no account to any other request
        have hsame : (calls.running leave fuel).perform fuel r = (calls.running leave fuel).perform 0 r := by
          cases r with
          | advance by_ => cases hr
          | _ => rfl
        have hnone : ∀ by_, ((calls.running leave fuel).advance 0 by_).Unmoved :=
          fun _ => closed.bind (closed.read _) fun _ => closed.ended .exhausted
        exact hsame ▸ heach.perform closed hcreates hreports hbatches hnone r
      unfold Prog.execute
      clear ih
      induction p with
      | done a => exact closed.ended _
      | ask r next ihp => exact closed.bind (hperform r hp.1) fun answer => ihp answer (hp.2 answer)

/-- The work of a timer moves the clock nowhere, if no code that is called does. -/
theorem Callbacks.Unmoving.fire (only : calls.Unmoving) (leave : Store → Store → Store) (depth : Nat)
    (job : Job Code) : ((calls.running leave depth).fire job).Unmoved := by
  have closed : Run.Closed fun α (x : Run Code Store α) => x.Unmoved := Run.closed_unmoved
  have heach := only.each (only.execute leave depth)
  have hreports := (heach.untimed closed fun ha => .act (Act.movesClock_of_not_isTimed ha)).2.1
  exact heach.work closed hreports .act job

/-- If the work of timers moves the clock nowhere, it is only moved to the time of the move itself. -/
theorem movesClock_runDue {running : Callbacks Code (Run Code Store)} (still : ∀ job, (running.fire job).Unmoved)
    {target fuel ran : Nat} {b : Backend Code Store} {a : Act Code Store}
    (ha : a ∈ (running.runDue target fuel ran).acts b) :
    a.movesClock = false ∨ a = .takeDue target ∨ a = .reach target := by
  induction fuel generalizing ran b with
  | zero => cases ha
  | succ fuel ih =>
      unfold Callbacks.runDue at ha
      rw [Run.acts_step_bind] at ha
      obtain rfl | ha := List.mem_cons.1 ha
      · exact .inr (.inl rfl)
      · cases hjob : (b.takeDue target).1 with
        | none =>
            rw [hjob] at ha
            exact .inr (.inr (List.mem_singleton.1 ha))
        | some job =>
            have hacts : (running.fire job >>= fun _ => running.runDue target fuel (ran + 1)).acts
                ((Act.takeDue target).apply b) = _ := Run.acts_andThen _ _ _
            rw [hjob] at ha
            dsimp only at ha
            rw [hacts] at ha
            obtain ha | ha := List.mem_append.1 ha
            · exact .inl (still job _ a ha)
            · cases hending : (running.fire job).ending ((Act.takeDue target).apply b) with
              | value _ =>
                  rw [hending] at ha
                  exact ih ha
              | panicked | exhausted =>
                  rw [hending] at ha
                  cases ha

end

/-! ## moves that are overtaken -/

namespace Backend

variable {calls : Callbacks Code (Prog Code Store)} {leave : Store → Store → Store} {b : Backend Code Store}

/-- The time in a course. -/
structure KeepsTime (calls : Callbacks Code (Prog Code Store)) (leave : Store → Store → Store)
    (b : Backend Code Store) (acts : List (Act Code Store)) : Prop where
  /-- No timer waits overdue. -/
  due : ∀ q, q <+: acts → ∀ t ∈ (b.play q).clock.pending, (b.play q).clock.now ≤ t.due
  /-- An act takes the clock back just when it ends a move and the clock shows a later time than that of the move. -/
  back_iff : ∀ q a, q ++ [a] <+: acts → ((b.play (q ++ [a])).clock.now < (b.play q).clock.now ↔
    ∃ start block target, q = start ++ block ∧ a = .reach target ∧
      Moved calls leave (b.play start) target (block ++ [.reach target]) ∧ target < (b.play q).clock.now)
  /-- The clock never goes back just when no move that ends is overtaken, which is when the clock never shows a later
  time than that of a move between its beginning and its end. -/
  forward_iff : (∀ q a, q ++ [a] <+: acts → (b.play q).clock.now ≤ (b.play (q ++ [a])).clock.now) ↔
    ∀ start block target, start ++ block ++ [.reach target] <+: acts →
      Moved calls leave (b.play start) target (block ++ [.reach target]) →
        ∀ mid, mid <+: block → (b.play (start ++ mid)).clock.now ≤ target
  /-- It is code that runs because the clock moves by which a move is overtaken: that code has begun a move to a later
  time. -/
  overtaken : ∀ start block target, Moving calls leave (b.play start) target block → start ++ block <+: acts →
    target < (b.play (start ++ block)).clock.now →
      ∃ before inner later, before ++ inner <+: block ∧ inner ≠ [] ∧ target < later ∧
        Moving calls leave (b.play (start ++ before)) later inner
  /-- Unless such code asks for moves of the clock, it never goes back. -/
  unasked : calls.Unmoving →
    ∀ q a, q ++ [a] <+: acts → (b.play q).clock.now ≤ (b.play (q ++ [a])).clock.now

@[simp] theorem now_apply_reach (b : Backend Code Store) (target : Nat) :
    ((Act.reach target).apply b).clock.now = target := rfl

theorem now_le_apply (regular : b.Regular) {a : Act Code Store} (h : ∀ target, a ≠ .reach target) :
    b.clock.now ≤ (a.apply b).clock.now := by
  cases a with
  | reach target => exact absurd rfl (h target)
  | takeDue target =>
      obtain hsame | ⟨t, -, ht, -, hnow⟩ := now_takeDue b target
      · exact Nat.le_of_eq hsame.symm
      · rw [hnow]
        exact regular.orderly.current t ht
  | _ => exact Nat.le_of_eq (now_apply rfl b).symm

/-- Where the clock gets beyond a time, an act moves it to a later one. -/
theorem exists_later {target : Nat} {acts : List (Act Code Store)} (start : b.clock.now ≤ target)
    (beyond : target < (b.play acts).clock.now) :
    ∃ q a later, q ++ [a] <+: acts ∧ target < later ∧ (a = .takeDue later ∨ a = .reach later) := by
  induction acts using List.reverseRecOn with
  | nil => exact absurd beyond (Nat.not_lt_of_le start)
  | append_singleton acts a ih =>
      by_cases hbefore : target < (b.play acts).clock.now
      · obtain ⟨q, a', later, hq, hlater⟩ := ih hbefore
        exact ⟨q, a', later, hq.trans (List.prefix_append _ _), hlater⟩
      · simp only [play_append, play_cons, play_nil] at beyond
        refine ⟨acts, a, ?_⟩
        cases a with
        | takeDue later =>
            refine ⟨later, List.prefix_refl _, ?_, .inl rfl⟩
            obtain hsame | ⟨t, -, -, hdue, hnow⟩ := now_takeDue (b.play acts) later
            · omega
            · omega
        | reach later => exact ⟨later, List.prefix_refl _, beyond, .inr rfl⟩
        | _ =>
            rw [now_apply rfl] at beyond
            exact absurd beyond hbefore

/-- The clock does not go beyond the time of a move, if the code that runs because of it asks for no moves. -/
theorem now_le_of_unmoving (only : calls.Unmoving) {target : Nat} {acts : List (Act Code Store)}
    (moving : Moving calls leave b target acts) : (b.play acts).clock.now ≤ target := by
  obtain ⟨depth, by_, hprefix, rfl⟩ := moving
  by_contra hbeyond
  obtain ⟨q, a, later, hq, hlater, ha⟩ := exists_later (Nat.le_add_right _ by_) (Nat.lt_of_not_le hbeyond)
  have hmem : a ∈ ((calls.running leave depth).advance depth by_).acts b :=
    (hq.trans hprefix).subset List.mem_concat_self
  obtain hstill | hown | hown := movesClock_runDue (only.fire leave depth) hmem
  · obtain rfl | rfl := ha <;> cases hstill
  · obtain rfl | rfl := ha <;> cases hown
    exact Nat.lt_irrefl _ hlater
  · obtain rfl | rfl := ha <;> cases hown
    exact Nat.lt_irrefl _ hlater

variable {acts : List (Act Code Store)}

theorem keepsTime (timely : Timely (Fires calls leave) none b acts) (regular : b.Regular)
    (moves : ∀ q a, q ++ [a] <+: acts →
      ∃ start block, q = start ++ block ∧ a.InMove calls leave (b.play start) block) :
    b.KeepsTime calls leave acts := by
  have hregular : ∀ {q}, q <+: acts → (b.play q).Regular := regular_play timely regular
  have hback : ∀ q a, q ++ [a] <+: acts → ((b.play (q ++ [a])).clock.now < (b.play q).clock.now ↔
      ∃ start block target, q = start ++ block ∧ a = .reach target ∧
        Moved calls leave (b.play start) target (block ++ [.reach target]) ∧ target < (b.play q).clock.now) := by
    intro q a hq
    constructor
    · intro hlt
      by_cases ha : ∃ target, a = .reach target
      · obtain ⟨target, rfl⟩ := ha
        obtain ⟨start, block, rfl, hmoved⟩ := moves q _ hq
        exact ⟨start, block, target, rfl, rfl, hmoved, by simpa using hlt⟩
      · have hle := now_le_apply (hregular ((List.prefix_append _ _).trans hq)) (not_exists.1 ha)
        rw [play_append] at hlt
        exact absurd hle (Nat.not_le_of_lt hlt)
    · rintro ⟨start, block, target, rfl, rfl, -, hlt⟩
      simpa using hlt
  have hforward : (∀ q a, q ++ [a] <+: acts → (b.play q).clock.now ≤ (b.play (q ++ [a])).clock.now) ↔
      ∀ start block target, start ++ block ++ [.reach target] <+: acts →
        Moved calls leave (b.play start) target (block ++ [.reach target]) →
          ∀ mid, mid <+: block → (b.play (start ++ mid)).clock.now ≤ target := by
    constructor
    · intro h start block target hend _ mid hmid
      have hlater : (b.play (start ++ mid)).clock.now ≤ (b.play (start ++ block ++ [.reach target])).clock.now := by
        refine play_later (P := fun b' => (b.play (start ++ mid)).clock.now ≤ b'.clock.now) (Nat.le_refl _)
          (fun q a _ (hq : q ++ [a] <+: acts) hle => ?_) ?_ hend
        · have hstep := h q a hq
          rw [play_append] at hstep
          exact Nat.le_trans hle hstep
        · exact ((List.prefix_append_right_inj start).2 hmid).trans (List.prefix_append _ _)
      simpa using hlater
    · intro h q a hq
      by_contra hlt
      obtain ⟨start, block, target, rfl, rfl, hmoved, hbeyond⟩ := (hback q a hq).1 (Nat.lt_of_not_le hlt)
      exact Nat.not_le_of_lt hbeyond (h start block target hq hmoved block (List.prefix_refl _))
  refine ⟨fun q hq => (hregular hq).orderly.current, hback, hforward, ?_, fun only => hforward.2 ?_⟩
  · intro start block target hmoving hblock hbeyond
    obtain ⟨depth, by_, hprefix, rfl⟩ := hmoving
    rw [play_append] at hbeyond
    obtain ⟨q, a, later, hq, hlater, ha⟩ := exists_later (Nat.le_add_right _ by_) hbeyond
    obtain ⟨before, inner, rfl, hmove⟩ := inMoves_advance calls leave depth by_ _ q a (hq.trans hprefix)
    refine ⟨before, inner ++ [a], later, by rwa [← List.append_assoc], by simp, hlater, ?_⟩
    rw [play_append]
    obtain rfl | rfl := ha
    · exact hmove
    · exact Moved.moving hmove
  · intro start block target _ hmoved mid hmid
    obtain ⟨depth, by_, hprefix, htarget⟩ := hmoved.moving
    rw [play_append]
    exact now_le_of_unmoving only ⟨depth, by_, (hmid.trans (List.prefix_append _ _)).trans hprefix, htarget⟩

end Backend

/-- In the course of every program no timer waits overdue, and the clock goes back just where a move of it ends that
was overtaken by a move that began meanwhile. -/
theorem clock_back_iff_overtaken (calls : Callbacks Code (Prog Code Store)) (leave : Store → Store → Store)
    (fuel : Nat) (p : Prog Code Store α) (store : Store) :
    (Backend.init store).KeepsTime calls leave (p.course calls leave fuel store) :=
  Backend.keepsTime (timely_execute calls leave fuel p _) (Backend.regular_init store)
    (inMoves_execute calls leave fuel p _)

namespace Sample

/-- A task moves the clock on by its number. -/
def hastyCalls : Callbacks Nat (Prog Nat Unit) where
  view _ := view ⟨"app", "", "View"⟩ ""
  init _ _ := pure (.ok ())
  adjust _ _ changes := pure (.ok changes)
  request _ _ _ := pure (.ok ())
  listener _ _ _ := pure ()
  task n := (Prog.request (.advance n)).bind fun _ => pure ()
  body _ := pure (.ok .null)

/-- Sets a timer for a task that moves the clock far, and moves the clock a little beyond that timer. -/
def hasty : Prog Nat Unit Nat := do
  let _ ← Prog.request (.schedule 5 100)
  let _ ← Prog.request (.advance 10)
  Prog.look (·.clock.now)

theorem course_hasty : hasty.course hastyCalls (fun _ after => after) 3 () =
    [.schedule 5 (.task 100), .takeDue 10, .takeDue 105, .reach 105, .keep (), .takeDue 10] ++ [.reach 10] := rfl

-- the clock showed 105 before
example : (hasty.execute hastyCalls (fun _ after => after) 3).ending (.init ()) = .value 10 := rfl

end Sample

theorem hasty_clock_back : ∃ before,
    Sample.hasty.course Sample.hastyCalls (fun _ after => after) 3 () = before ++ [.reach 10] ∧
      ((Backend.init ()).play before).clock.now = 105 ∧
      ((Backend.init ()).play (before ++ [.reach 10])).clock.now = 10 ∧
      ∃ start block, before = start ++ block ∧
        Moved Sample.hastyCalls (fun _ after => after) ((Backend.init ()).play start) 10 (block ++ [.reach 10]) := by
  have htime := clock_back_iff_overtaken Sample.hastyCalls (fun _ after => after) 3 Sample.hasty ()
  rw [Sample.course_hasty] at htime ⊢
  refine ⟨_, rfl, rfl, rfl, ?_⟩
  obtain ⟨start, block, target, hbefore, hreach, hmoved, -⟩ :=
    (htime.back_iff _ (.reach 10) (List.prefix_refl _)).1 (by decide)
  obtain rfl := Act.reach.inj hreach
  exact ⟨start, block, hbefore, hmoved⟩

end ViewSync
