import ViewSync.Proofs.Backend.Clock
import ViewSync.Proofs.Backend.Closure

/-!
# ViewSync.Proofs.Backend.Timely

The clock in the course of any program. It is moved by requests to move it alone, wherever they are made, also
in code that itself runs because the clock moves. A move ends only when nothing is due any more, and behind each
timer that fires comes what the timer was set for.

* `Act.isTimed` — the acts of which there is something to say;
* `Timely` — what holds of them, put together act by act and course by course;
* `timely_execute` — the course of every program is timely, whatever code it calls.
-/

namespace ViewSync

variable {Code Store α : Type}

namespace Act

/-- Whether an act moves the clock, takes what a timer was set for, or sets a timer for a debouncer or a
periodic task. -/
def isTimed : Act Code Store → Bool
  | .takeDue _ | .reach _ | .takeCall _ | .takeTick _ => true
  | .schedule _ (.debounced _) | .schedule _ (.tick _) => true
  | _ => false

/-- The job whose work an act begins. -/
def begins? : Act Code Store → Option (Job Code)
  | .takeCall d => some (.debounced d)
  | .takeTick p => some (.tick p)
  | _ => none

theorem isTimed_of_isCommon {a : Act Code Store} (common : a.isCommon = true) : a.isTimed = false := by
  cases a with
  | schedule delay job => cases job <;> first | rfl | cases common
  | takeDue | reach | takeCall | takeTick => cases common
  | _ => rfl

theorem isTimed_of_isOfCreation {a : Act Code Store} (creation : a.isOfCreation = true) :
    a.isTimed = false := by
  cases a with
  | enroll | activate | abandon => rfl
  | _ => cases creation

theorem isTimed_of_brackets {a : Act Code Store} {c : ComponentId} (h : a.brackets? = some c) :
    a.isTimed = false := by
  cases a with
  | openBatch | commit | drop => rfl
  | _ => cases h

end Act

/-! ## courses -/

/-- The last of some acts fired a timer that was set for a job. -/
def Backend.JustFired (b : Backend Code Store) (job : Job Code) (acts : List (Act Code Store)) : Prop :=
  ∃ before target t, acts = before ++ [.takeDue target] ∧
    (Act.takeDue target).fires? (b.play before) = some t ∧ t.job = job

theorem Backend.justFired_concat {b : Backend Code Store} {job : Job Code} {acts : List (Act Code Store)}
    {a : Act Code Store} :
    b.JustFired job (acts ++ [a]) ↔ ∃ t, a.fires? (b.play acts) = some t ∧ t.job = job := by
  constructor
  · rintro ⟨before, target, t, hacts, hfires, hjob⟩
    obtain ⟨rfl, hact⟩ := List.append_inj' hacts rfl
    obtain rfl := List.singleton_inj.1 hact
    exact ⟨t, hfires, hjob⟩
  · rintro ⟨t, hfires, hjob⟩
    cases a with
    | takeDue target => exact ⟨acts, target, t, rfl, hfires, hjob⟩
    | _ => cases hfires

theorem Backend.not_justFired_nil {b : Backend Code Store} {job : Job Code} : ¬ b.JustFired job [] := by
  rintro ⟨before, target, t, hnil, -⟩
  simp at hnil

/-- A move of the clock ends only when nothing is due any more; behind each timer that fires comes what it was
set for, and the work of a debouncer or of a periodic task begins only there, unless the timer fired just before
these acts; and the program sets timers for tasks alone. -/
structure Timely (fires : Job Code → Backend Code Store → List (Act Code Store) → Prop)
    (fired : Option (Job Code)) (b : Backend Code Store) (acts : List (Act Code Store)) : Prop where
  reach : ∀ q target, q ++ [.reach target] <+: acts → (b.play q).clock.takeDue? target = none
  fire : ∀ q target t, q ++ [.takeDue target] <+: acts →
    (Act.takeDue target).fires? (b.play q) = some t →
      ∃ inner, fires t.job (b.play (q ++ [.takeDue target])) inner ∧ q ++ .takeDue target :: inner <+: acts
  begins : ∀ q a job, q ++ [a] <+: acts → a.begins? = some job →
    (q = [] ∧ fired = some job) ∨ b.JustFired job q
  tasks : ∀ delay job, .schedule delay job ∈ acts → ∃ code, job = .task code

namespace Timely

variable {fires : Job Code → Backend Code Store → List (Act Code Store) → Prop} {fired : Option (Job Code)}
  {b : Backend Code Store} {acts more : List (Act Code Store)} {a : Act Code Store}

theorem nil : Timely fires fired b [] where
  reach q target hq := by simp at hq
  fire q target t hq := by simp at hq
  begins q a job hq := by simp at hq
  tasks delay job hmem := absurd hmem List.not_mem_nil

theorem append (h : Timely fires fired b acts) (hmore : Timely fires none (b.play acts) more) :
    Timely fires fired b (acts ++ more) where
  reach q target hq := by
    obtain hq | ⟨q, rfl, hmid⟩ := prefix_concat_append hq
    · exact h.reach q target hq
    · rw [Backend.play_append]
      exact hmore.reach q target hmid
  fire q target t hq hfires := by
    obtain hq | ⟨q, rfl, hmid⟩ := prefix_concat_append hq
    · obtain ⟨inner, hinner, hpre⟩ := h.fire q target t hq hfires
      exact ⟨inner, hinner, hpre.trans (List.prefix_append _ _)⟩
    · rw [Backend.play_append] at hfires
      obtain ⟨inner, hinner, hpre⟩ := hmore.fire q target t hmid hfires
      refine ⟨inner, by simpa using hinner, ?_⟩
      rw [List.append_assoc, List.prefix_append_right_inj]
      exact hpre
  begins q a job hq hbegins := by
    obtain hq | ⟨q, rfl, hmid⟩ := prefix_concat_append hq
    · exact h.begins q a job hq hbegins
    · obtain ⟨-, hnone⟩ | ⟨q', target, t, rfl, hfires, hjob⟩ := hmore.begins q a job hmid hbegins
      · cases hnone
      · exact .inr ⟨acts ++ q', target, t, (List.append_assoc _ _ _).symm, by rwa [Backend.play_append], hjob⟩
  tasks delay job hmem := by
    obtain hmem | hmem := List.mem_append.1 hmem
    · exact h.tasks delay job hmem
    · exact hmore.tasks delay job hmem

/-- An act that takes no timer, moves the clock only when nothing is due, and begins only the work of the timer
that fired just before. -/
theorem single (fire : a.fires? b = none) (begins : ∀ job, a.begins? = some job → fired = some job)
    (reach : ∀ target, a = .reach target → b.clock.takeDue? target = none)
    (tasks : ∀ delay job, a = .schedule delay job → ∃ code, job = .task code) : Timely fires fired b [a] := by
  have honly : ∀ {q x}, q ++ [x] <+: [a] → q = [] ∧ x = a := by
    intro q x hq
    have hlength := hq.length_le
    obtain rfl : q = [] := by simpa using hlength
    exact ⟨rfl, List.mem_singleton.1 (hq.subset List.mem_concat_self)⟩
  refine ⟨fun q target hq => ?_, fun q target t hq hfires => ?_, fun q x job hq hbegins => ?_,
    fun delay job hmem => tasks delay job (List.mem_singleton.1 hmem).symm⟩
  · obtain ⟨rfl, hx⟩ := honly hq
    exact reach target hx.symm
  · obtain ⟨rfl, rfl⟩ := honly hq
    rw [Backend.play_nil, fire] at hfires
    cases hfires
  · obtain ⟨rfl, rfl⟩ := honly hq
    exact .inl ⟨rfl, begins job hbegins⟩

/-- One more act in front, of which there is nothing to say. -/
theorem cons (untimed : a.isTimed = false) (h : Timely fires none (a.apply b) acts) :
    Timely fires fired b (a :: acts) := by
  have hfirst : Timely fires fired b [a] := by
    cases a with
    | takeDue | reach | takeCall | takeTick => cases untimed
    | schedule delay job =>
        refine single rfl (fun _ ha => by cases ha) (fun _ ha => by cases ha) fun _ _ ha => ?_
        cases job with
        | task code => exact ⟨code, (Act.schedule.inj ha).2.symm⟩
        | debounced | tick => cases untimed
    | _ => exact single rfl (fun _ ha => by cases ha) (fun _ ha => by cases ha) fun _ _ ha => by cases ha
  exact hfirst.append h

/-- The work of the timer that fired just before begins. -/
theorem begin {job : Job Code} (begins : a.begins? = some job) (h : Timely fires none (a.apply b) acts) :
    Timely fires (some job) b (a :: acts) := by
  have hfirst : Timely fires (some job) b [a] := by
    cases a with
    | takeCall | takeTick =>
        exact single rfl (fun _ ha => begins.symm.trans ha) (fun _ ha => by cases ha) fun _ _ ha => by cases ha
    | _ => cases begins
  exact hfirst.append h

theorem weaken (h : Timely fires none b acts) : Timely fires fired b acts where
  reach := h.reach
  fire := h.fire
  begins q a job hq hbegins := .inr <| (h.begins q a job hq hbegins).resolve_left fun hnone => by cases hnone.2
  tasks := h.tasks

/-- A timer fires, and what follows is what it was set for. -/
theorem of_some {target : Nat} {t : Timer (Job Code)} (due : (Act.takeDue target).fires? b = some t)
    (inner : fires t.job ((Act.takeDue target).apply b) acts)
    (rest : Timely fires (some t.job) ((Act.takeDue target).apply b) acts) :
    Timely fires fired b (.takeDue target :: acts) where
  reach q target' hq := by
    cases q with
    | nil => cases (List.cons_prefix_cons.1 hq).1
    | cons x q =>
        obtain ⟨rfl, hmid⟩ := List.cons_prefix_cons.1 hq
        exact rest.reach q target' hmid
  fire q target' t' hq hfires := by
    cases q with
    | nil =>
        cases (List.cons_prefix_cons.1 hq).1
        obtain rfl : t = t' := Option.some.inj (due.symm.trans hfires)
        exact ⟨acts, inner, List.prefix_refl _⟩
    | cons x q =>
        obtain ⟨rfl, hmid⟩ := List.cons_prefix_cons.1 hq
        obtain ⟨inner', hinner, hpre⟩ := rest.fire q target' t' hmid hfires
        exact ⟨inner', hinner, List.cons_prefix_cons.2 ⟨rfl, hpre⟩⟩
  begins q a job hq hbegins := by
    cases q with
    | nil =>
        cases (List.cons_prefix_cons.1 hq).1
        cases hbegins
    | cons x q =>
        obtain ⟨rfl, hmid⟩ := List.cons_prefix_cons.1 hq
        obtain ⟨rfl, hjob⟩ | ⟨q', target', t', rfl, hfires, hjob⟩ := rest.begins q a job hmid hbegins
        · exact .inr ⟨[], target, t, rfl, due, Option.some.inj hjob⟩
        · exact .inr ⟨.takeDue target :: q', target', t', rfl, hfires, hjob⟩
  tasks delay job hmem := by
    obtain hact | hmem := List.mem_cons.1 hmem
    · cases hact
    · exact rest.tasks delay job hmem

/-- Behind a timer that fired comes what it was set for. -/
theorem work (h : Timely fires fired b acts) {job : Job Code} {q : List (Act Code Store)} (hq : q <+: acts)
    (justFired : b.JustFired job q) : ∃ inner, fires job (b.play q) inner ∧ q ++ inner <+: acts := by
  obtain ⟨before, target, t, rfl, hfires, rfl⟩ := justFired
  obtain ⟨inner, hinner, hpre⟩ := h.fire before target t hq hfires
  exact ⟨inner, hinner, by simpa using hpre⟩

/-- What follows an act that fires no timer is timely by itself. -/
theorem behind (h : Timely fires fired b (acts ++ a :: more)) (quiet : a.fires? (b.play acts) = none) :
    Timely fires none (b.play (acts ++ [a])) more := by
  rw [List.append_cons] at h
  have hpre : ∀ {q x}, q ++ [x] <+: more → acts ++ [a] ++ q ++ [x] <+: acts ++ [a] ++ more := fun hq => by
    rw [List.append_assoc (acts ++ [a]), List.prefix_append_right_inj]
    exact hq
  refine ⟨fun q target hq => ?_, fun q target t hq hfires => ?_, fun q x job hq hbegins => .inr ?_,
    fun delay job hmem => h.tasks delay job (List.mem_append_right _ hmem)⟩
  · rw [← Backend.play_append]
    exact h.reach _ target (hpre hq)
  · rw [← Backend.play_append] at hfires
    obtain ⟨inner, hinner, hmore⟩ := h.fire _ target t (hpre hq) hfires
    refine ⟨inner, by simpa using hinner, ?_⟩
    rwa [List.append_assoc (acts ++ [a]), List.prefix_append_right_inj] at hmore
  · obtain ⟨hnil, -⟩ | hfired := h.begins _ x job (hpre hq) hbegins
    · simp at hnil
    · obtain rfl | ⟨q, last, rfl⟩ := List.eq_nil_or_concat' q
      · rw [List.append_nil] at hfired
        obtain ⟨t, ht, -⟩ := Backend.justFired_concat.1 hfired
        rw [quiet] at ht
        cases ht
      · rw [← List.append_assoc] at hfired
        obtain ⟨t, ht, hjob⟩ := Backend.justFired_concat.1 hfired
        rw [Backend.play_append] at ht
        exact Backend.justFired_concat.2 ⟨t, ht, hjob⟩

/-- Nothing is due any more, and the clock shows its target. -/
theorem of_none {target : Nat} (due : b.clock.takeDue? target = none) :
    Timely fires fired b [.takeDue target, .reach target] := by
  have hfires : (Act.takeDue target).fires? b = none := by simp [Act.fires?, due]
  have htake : Timely fires fired b [.takeDue target] :=
    single hfires (fun _ ha => by cases ha) (fun _ ha => by cases ha) fun _ _ ha => by cases ha
  refine htake.append (single rfl (fun _ ha => by cases ha) (fun target' ha => ?_) fun _ _ ha => by cases ha)
  cases ha
  rwa [Backend.play_cons, Backend.play_nil, Backend.apply_takeDue_of_none due]

end Timely

/-! ## runs -/

/-- From every state the acts of the run are timely. -/
def Run.Timely (fires : Job Code → Backend Code Store → List (Act Code Store) → Prop) (x : Run Code Store α) :
    Prop :=
  ∀ b, ViewSync.Timely fires none b (x.acts b)

section

variable {fires : Job Code → Backend Code Store → List (Act Code Store) → Prop}

theorem Run.Timely.act {a : Act Code Store} {next : Run Code Store α} (untimed : a.isTimed = false)
    (h : next.Timely fires) : (Run.act a next).Timely fires :=
  fun b => .cons untimed (h (a.apply b))

theorem Run.closed_timely : Run.Closed fun α (x : Run Code Store α) => x.Timely fires where
  ended _ _ := .nil
  look h b := h b b
  act common h := .act (Act.isTimed_of_isCommon common) h
  andThen hx hf b := by
    rw [acts_andThen]
    refine (hx b).append ?_
    rw [← finish_eq_play]
    exact hf _ _

theorem timely_step {a : Act Code Store} (untimed : a.isTimed = false) (answer : Backend Code Store → α) :
    (Run.step a answer).Timely fires :=
  Run.closed_timely.look fun _ => .act untimed (Run.closed_timely.ended _)

variable {calls : Callbacks Code (Run Code Store)} (h : calls.Each fun α (x : Run Code Store α) => x.Timely fires)
  (reports : ∀ s error, (calls.report s error).Timely fires)

include h reports

/-- What a timer was set for is timely where the timer fired. -/
theorem timely_fire (job : Job Code) (b : Backend Code Store) :
    Timely fires (some job) b ((calls.fire job).acts b) := by
  have closed : Run.Closed fun α (x : Run Code Store α) => x.Timely fires := Run.closed_timely
  cases job with
  | task code => exact (h.task code b).weaken
  | debounced d =>
      refine .begin rfl ?_
      dsimp only
      cases (b.takeCall d).1 with
      | none => exact .nil
      | some call => exact closed.bind (Callbacks.Each.run closed reports _ (h.body _)) (fun _ => closed.pure _) _
  | tick p =>
      refine .begin rfl ?_
      dsimp only
      cases (b.takeTick p).1 with
      | none => exact .nil
      | some call =>
          refine closed.bind (Callbacks.Each.run closed reports _ (h.body _)) (fun _ => ?_) _
          exact timely_step rfl _

/-- A move of the clock is timely, if what `fires` says of each job is what is done for it. -/
theorem timely_advance (fired : ∀ job b, fires job b ((calls.fire job).acts b)) (fuel by_ : Nat) :
    (calls.advance fuel by_).Timely fires := by
  have closed : Run.Closed fun α (x : Run Code Store α) => x.Timely fires := Run.closed_timely
  refine closed.bind (closed.read _) fun now => ?_
  generalize 0 = ran
  induction fuel generalizing ran with
  | zero => exact closed.ended _
  | succ fuel ih =>
      intro b
      unfold Callbacks.runDue
      rw [Run.acts_step_bind]
      cases hdue : b.clock.takeDue? (now + by_) with
      | none =>
          simp only [Backend.takeDue, hdue]
          exact .of_none hdue
      | some taken =>
          obtain ⟨t, clock⟩ := taken
          have hfires : (Act.takeDue (now + by_)).fires? b = some t := by simp [Act.fires?, hdue]
          have hacts : (calls.fire t.job >>= fun _ => calls.runDue (now + by_) fuel (ran + 1)).acts
              ((Act.takeDue (now + by_)).apply b) = _ := Run.acts_andThen _ _ _
          simp only [Backend.takeDue, hdue]
          rw [hacts, ← List.cons_append]
          refine (Timely.of_some hfires (fired _ _) (timely_fire h reports _ _)).append ?_
          rw [Backend.play_cons, ← Run.finish_eq_play]
          cases (calls.fire t.job).ending ((Act.takeDue (now + by_)).apply b) with
          | value _ => exact ih (ran + 1) _
          | panicked | exhausted => exact .nil

end

/-- A move of the clock that comes to an end gets to its time. -/
theorem Callbacks.reach_of_advance (calls : Callbacks Code (Run Code Store)) {fuel by_ ran : Nat}
    {b : Backend Code Store} {acts : List (Act Code Store)} (h : (calls.advance fuel by_).Does b acts ran) :
    ∃ before, acts = before ++ [.reach (b.clock.now + by_)] := by
  replace h : (calls.runDue (b.clock.now + by_) fuel 0).Does b acts ran := ⟨h.acts_eq, h.ending_eq⟩
  generalize b.clock.now + by_ = target at h ⊢
  generalize 0 = count at h
  induction fuel generalizing count b acts with
  | zero => cases h.ending_eq
  | succ fuel ih =>
      unfold Callbacks.runDue at h
      obtain ⟨first, job, rest, -, hrest, rfl⟩ := h.of_bind
      cases job with
      | none =>
          obtain ⟨moved, _, last, hmoved, hlast, rfl⟩ := hrest.of_bind
          obtain rfl : moved = [.reach target] := hmoved.acts_eq.symm
          obtain rfl : last = [] := hlast.acts_eq.symm
          exact ⟨first, by simp⟩
      | some job =>
          obtain ⟨work, _, more, -, hmore, rfl⟩ := hrest.of_bind
          obtain ⟨before, rfl⟩ := ih _ hmore
          exact ⟨first ++ (work ++ before), by simp⟩

/-- What happens while timers are run is the work of a timer that fired, or takes the next timer, or is the end of it
all. -/
theorem Callbacks.runDue_cases (calls : Callbacks Code (Run Code Store)) {target fuel ran : Nat}
    {b : Backend Code Store} {q : List (Act Code Store)} {a : Act Code Store}
    (hq : q ++ [a] <+: (calls.runDue target fuel ran).acts b) :
    (∃ start t work, q = start ++ .takeDue target :: work ∧ (Act.takeDue target).fires? (b.play start) = some t ∧
        work ++ [a] <+: (calls.fire t.job).acts (b.play (start ++ [.takeDue target]))) ∨
      a = .takeDue target ∨ a = .reach target ∧ ∃ ran', (calls.runDue target fuel ran).Does b (q ++ [a]) ran' := by
  induction fuel generalizing ran b q with
  | zero => simp [Callbacks.runDue, Run.exhaust, Run.acts] at hq
  | succ fuel ih =>
      unfold Callbacks.runDue at hq ⊢
      rw [Run.acts_step_bind] at hq
      cases q with
      | nil => exact .inr (.inl (List.cons_prefix_cons.1 hq).1)
      | cons x q =>
          obtain ⟨rfl, hrest⟩ := List.cons_prefix_cons.1 hq
          cases hdue : b.clock.takeDue? target with
          | none =>
              have hjob : (b.takeDue target).1 = none := by simp [Backend.takeDue, hdue]
              rw [hjob] at hrest
              have hend : q ++ [a] <+: [.reach target] := hrest
              have hlength := hend.length_le
              obtain rfl : q = [] := by simpa using hlength
              obtain rfl : a = .reach target := (List.cons_prefix_cons.1 hend).1
              refine .inr (.inr ⟨rfl, ran, Run.Does.step ?_⟩)
              rw [hjob]
              exact (Run.does_step _ _ _).bind (Run.does_pure _ ran)
          | some taken =>
              have hjob : (b.takeDue target).1 = some taken.1.job := by simp [Backend.takeDue, hdue]
              rw [hjob] at hrest
              have hacts : (calls.fire taken.1.job >>= fun _ => calls.runDue target fuel (ran + 1)).acts
                  ((Act.takeDue target).apply b) = _ := Run.acts_andThen _ _ _
              dsimp only at hrest
              rw [hacts] at hrest
              obtain hwork | ⟨q, rfl, hmore⟩ := prefix_concat_append hrest
              · exact .inl ⟨[], taken.1, q, rfl, by simp [Act.fires?, hdue], hwork⟩
              · cases hending : (calls.fire taken.1.job).ending ((Act.takeDue target).apply b) with
                | value _ =>
                    have hfire : (calls.fire taken.1.job).Does ((Act.takeDue target).apply b) _ () := ⟨rfl, hending⟩
                    rw [hending] at hmore
                    obtain ⟨start, t, work, rfl, hfires, hwork⟩ | htake | ⟨hreach, ran', hdoes⟩ := ih hmore
                    · rw [hfire.last_eq, ← Backend.play_append] at hfires hwork
                      exact .inl ⟨.takeDue target :: (_ ++ start), t, work, by simp, hfires, by simpa using hwork⟩
                    · exact .inr (.inl htake)
                    · refine .inr (.inr ⟨hreach, ran', ?_⟩)
                      rw [List.cons_append, List.append_assoc]
                      refine Run.Does.step ?_
                      rw [hjob]
                      exact hfire.bind (hfire.last_eq ▸ hdoes)
                | panicked | exhausted =>
                    rw [hending] at hmore
                    simp [Run.panic, Run.exhaust, Run.acts] at hmore

/-- At some depth of nesting the work of a timer that fired is done with these acts. -/
def Fires (calls : Callbacks Code (Prog Code Store)) (leave : Store → Store → Store) (job : Job Code)
    (b : Backend Code Store) (acts : List (Act Code Store)) : Prop :=
  ∃ depth, 0 < depth ∧ acts = ((calls.running leave depth).fire job).acts b

/-- When a timer has fired, its work begins before anything else happens. -/
theorem Timely.next_of_justFired {calls : Callbacks Code (Prog Code Store)} {leave : Store → Store → Store}
    {fired : Option (Job Code)} {b : Backend Code Store} {acts q : List (Act Code Store)} {a first : Act Code Store}
    {job : Job Code} (timely : Timely (Fires calls leave) fired b acts) (justFired : b.JustFired job q)
    (begins : ∀ (running : Callbacks Code (Run Code Store)) b, [first] <+: (running.fire job).acts b)
    (hq : q ++ [a] <+: acts) : a = first := by
  obtain ⟨inner, ⟨depth, -, rfl⟩, hinner⟩ := timely.work ((List.prefix_append _ _).trans hq) justFired
  exact eq_of_prefix_concat hq (.trans ((List.prefix_append_right_inj q).2 (begins _ _)) hinner)

/-- The course of every program is timely. -/
theorem timely_execute (calls : Callbacks Code (Prog Code Store)) (leave : Store → Store → Store) (fuel : Nat)
    (p : Prog Code Store α) : (p.execute calls leave fuel).Timely (Fires calls leave) := by
  have closed : Run.Closed fun α (x : Run Code Store α) => x.Timely (Fires calls leave) := Run.closed_timely
  refine closed.execute (fun fuel heach => ?_) fuel p
  have hbatches : ∀ {α ε} (c : ComponentId) (fail : ComponentError → ε) {body : Run Code Store (Except ε α)},
      body.Timely (Fires calls leave) → ((calls.running leave fuel).batch c fail body).Timely (Fires calls leave) :=
    fun c fail => heach.batch closed fun ha => .act (Act.isTimed_of_brackets ha)
  have hcreates := Callbacks.Each.create closed (fun c kind => hbatches c id (heach.initKind closed kind c))
    fun ha => .act (Act.isTimed_of_isOfCreation ha)
  have hreports := heach.report closed hcreates (.act rfl)
  refine ⟨hcreates, hreports, fun c body => hbatches c _ (heach.body body), fun by_ => ?_⟩
  cases fuel with
  | zero => exact closed.bind (closed.read _) fun _ => closed.ended .exhausted
  | succ fuel => exact timely_advance heach hreports (fun job b => ⟨fuel + 1, Nat.succ_pos _, rfl⟩) _ _

end ViewSync
