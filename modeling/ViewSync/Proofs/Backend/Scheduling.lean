import Mathlib.Logic.Hydra
import ViewSync.Proofs.Backend.Punctual
import ViewSync.Proofs.Backend.Scopes

/-!
# ViewSync.Proofs.Backend.Scheduling

Programs that set timers, take them away and move the clock, with tasks that do the same but do not move the
clock. When each task sets only timers for smaller tasks, of a well-founded order, such a program comes to an
end, and its tasks run once, in order and on time.

* `Prog.Only`, `Request.InTask`, `Request.InMain` — what such programs ask for;
* `exists_drained` — the clock reaches its target, however many timers the tasks set on the way;
* `Accounts`, `exists_course` — the whole program, with its moves of the clock;
* `RunsInOrder`, `tasks_run_once_in_order` — what this means for each timer.
-/

namespace ViewSync

variable {Code Store α : Type}

/-! ## programs with timers -/

namespace Prog

/-- A program asks only for requests of a kind. -/
def Only (P : Request Code Store → Prop) : Prog Code Store α → Prop
  | .done _ => True
  | .ask r next => P r ∧ ∀ answer, (next answer).Only P

/-- Behind certain acts a program asks for a request. -/
inductive Asks (perform : (r : Request Code Store) → Run Code Store r.Answer) :
    Prog Code Store α → Backend Code Store → List (Act Code Store) → Request Code Store → Prop
  | now {r : Request Code Store} {next : r.Answer → Prog Code Store α} {b : Backend Code Store} :
      Asks perform (.ask r next) b [] r
  | later {r r' : Request Code Store} {next : r.Answer → Prog Code Store α} {b : Backend Code Store}
      {acts more : List (Act Code Store)} {answer : r.Answer} (first : (perform r).Does b acts answer)
      (rest : Asks perform (next answer) (b.play acts) more r') :
      Asks perform (.ask r next) b (acts ++ more) r'

/-- Behind certain acts a program moves the clock on by some time; so much is done because of that, and so
many timers run. -/
structure Advances (perform : (r : Request Code Store) → Run Code Store r.Answer) (p : Prog Code Store α)
    (b : Backend Code Store) (before : List (Act Code Store)) (time : Nat) (block : List (Act Code Store))
    (ran : Nat) : Prop where
  asked : p.Asks perform b before (.advance time)
  does : (perform (.advance time)).Does (b.play before) block ran

end Prog

namespace Request

/-- What a task may ask for: besides looks and what it keeps, it takes timers away and sets timers for certain
tasks. -/
def InTask (smaller : Code → Prop) : Request Code Store → Prop
  | .look | .keep _ | .note _ | .cancel _ => True
  | .schedule _ code => smaller code
  | _ => False

/-- What the program may ask for: it also moves the clock. -/
def InMain : Request Code Store → Prop
  | .advance _ => True
  | r => r.InTask fun _ => True

end Request

open Backend

/-! ## tasks -/

section

variable {calls : Callbacks Code (Prog Code Store)} {leave : Store → Store → Store}

/-- What a task asks for is done by at most one act of a task, whatever else the program may call. -/
theorem does_perform_inTask {smaller : Code → Prop} {r : Request Code Store} (task : r.InTask smaller)
    (b : Backend Code Store) : ∃ acts answer, (∀ a ∈ acts, a.InTask smaller) ∧
      ∀ (running : Callbacks Code (Run Code Store)) fuel, (running.perform fuel r).Does b acts answer := by
  cases r with
  | look => exact ⟨[], b, fun _ h => absurd h List.not_mem_nil, fun _ _ => ⟨rfl, rfl⟩⟩
  | keep store =>
      exact ⟨[.keep store], (), fun a h => List.mem_singleton.1 h ▸ trivial, fun _ _ => Run.does_step _ _ b⟩
  | note entry =>
      exact ⟨[.note entry], (), fun a h => List.mem_singleton.1 h ▸ trivial, fun _ _ => Run.does_step _ _ b⟩
  | cancel id =>
      exact ⟨[.cancel id], _, fun a h => List.mem_singleton.1 h ▸ trivial, fun _ _ => Run.does_step _ _ b⟩
  | schedule delay code =>
      exact ⟨[.schedule delay (.task code)], _, fun a h => List.mem_singleton.1 h ▸ task,
        fun _ _ => Run.does_step _ _ b⟩
  | _ => exact absurd task id

theorem does_interpret_inTask {smaller : Code → Prop} {p : Prog Code Store α}
    (task : p.Only fun r => r.InTask smaller) (b : Backend Code Store) : ∃ acts a,
      (∀ a ∈ acts, a.InTask smaller) ∧ ∀ (running : Callbacks Code (Run Code Store)) fuel,
        (p.interpret (running.perform fuel)).Does b acts a := by
  induction p generalizing b with
  | done a => exact ⟨[], a, fun _ h => absurd h List.not_mem_nil, fun _ _ => Run.does_pure b a⟩
  | ask r next ih =>
      obtain ⟨acts, answer, hacts, hdoes⟩ := does_perform_inTask task.1 b
      obtain ⟨more, a, hmore, hrest⟩ := ih answer (task.2 answer) (b.play acts)
      refine ⟨acts ++ more, a, List.forall_mem_append.2 ⟨hacts, hmore⟩, fun running fuel => ?_⟩
      exact (hdoes running fuel).bind (hrest running fuel)

/-- A task that is called does what it asks for, at every depth of nesting. -/
def RunsTask (calls : Callbacks Code (Prog Code Store)) (leave : Store → Store → Store) (code : Code)
    (b : Backend Code Store) (acts : List (Act Code Store)) : Prop :=
  ∀ depth, 0 < depth → ((calls.running leave depth).task code).Does b acts ()

theorem exists_runsTask {smaller : Code → Code → Prop}
    (tasks : ∀ code, (calls.task code).Only fun r => r.InTask (smaller · code)) (code : Code)
    (b : Backend Code Store) :
    ∃ acts, RunsTask calls leave code b acts ∧ ∀ a ∈ acts, a.InTask (smaller · code) := by
  obtain ⟨acts, ⟨⟩, hacts, hdoes⟩ := does_interpret_inTask (tasks code) b
  refine ⟨acts ++ [.keep (leave b.store (b.play acts).store)], fun depth hdepth => ?_, fun a ha => ?_⟩
  · obtain ⟨depth, rfl⟩ := Nat.exists_eq_add_one.2 hdepth
    exact Run.Does.calling (hdoes (calls.running leave depth) depth) leave
  · obtain ha | ha := List.mem_append.1 ha
    · exact hacts a ha
    · obtain rfl := List.mem_singleton.1 ha
      trivial

end

/-! ## the clock reaches its target -/

namespace Clock

/-- The tasks that wait. -/
def tasks (clock : Clock (Job Code)) : Multiset Code :=
  clock.pending.filterMap fun t =>
    match t.job with
    | .task code => some code
    | _ => none

end Clock

/-- Fewer tasks wait: some of them have been replaced by any number of smaller ones, or by none. -/
def Fewer (smaller : Code → Code → Prop) : Multiset Code → Multiset Code → Prop :=
  Relation.TransGen (Relation.CutExpand smaller)

theorem wellFounded_fewer {smaller : Code → Code → Prop} (wf : WellFounded smaller) :
    WellFounded (Fewer smaller) :=
  wf.cutExpand.transGen

/-- A task goes, smaller ones come, and others may go with it. -/
theorem fewer_of_le {smaller : Code → Code → Prop} {code : Code} {waiting new left : Multiset Code}
    (new_smaller : ∀ c ∈ new, smaller c code) (le : left ≤ waiting + new) :
    Fewer smaller left (code ::ₘ waiting) := by
  have hreplaced : Fewer smaller (waiting + new) (code ::ₘ waiting) := by
    refine .single ⟨new, code, new_smaller, ?_⟩
    rw [← Multiset.singleton_add, add_comm, add_assoc]
  obtain ⟨gone, hgone⟩ := Multiset.le_iff_exists_add.1 le
  rw [hgone] at hreplaced
  clear hgone le
  induction gone using Multiset.induction with
  | empty => simpa using hreplaced
  | cons c gone ih =>
      have hcut : Relation.CutExpand smaller (left + gone) (left + (c ::ₘ gone)) :=
        ⟨0, c, fun _ h => absurd h (Multiset.notMem_zero _), by
          rw [← Multiset.singleton_add, add_zero, add_assoc, add_comm gone]⟩
      exact ih (.head hcut hreplaced)

namespace Backend

variable {smaller : Code → Code → Prop} {b : Backend Code Store} {code : Code}

/-- What a task adds to the tasks that wait are smaller tasks. -/
theorem tasks_apply_inTask {a : Act Code Store} (task : a.InTask (smaller · code)) :
    ∃ new : Multiset Code, (∀ c ∈ new, smaller c code) ∧ (a.apply b).clock.tasks ≤ b.clock.tasks + new := by
  have hnone : ∀ c ∈ (0 : Multiset Code), smaller c code := fun _ h => absurd h (Multiset.notMem_zero _)
  cases a with
  | keep store => exact ⟨0, hnone, le_of_eq (add_zero _).symm⟩
  | note entry => exact ⟨0, hnone, le_of_eq (add_zero _).symm⟩
  | cancel id =>
      refine ⟨0, hnone, ?_⟩
      rw [add_zero]
      exact (List.filter_sublist.filterMap _).subperm
  | schedule delay job =>
      cases job with
      | task c =>
          refine ⟨{c}, fun c' hc' => Multiset.mem_singleton.1 hc' ▸ task, le_of_eq ?_⟩
          rw [add_comm, Multiset.singleton_add]
          exact Quotient.sound ((Clock.perm_place _ _).filterMap _)
      | debounced d => exact absurd task id
      | tick p => exact absurd task id
  | _ => exact absurd task id

theorem tasks_play_inTask {acts : List (Act Code Store)} (task : ∀ a ∈ acts, a.InTask (smaller · code)) :
    ∃ new : Multiset Code, (∀ c ∈ new, smaller c code) ∧
      (b.play acts).clock.tasks ≤ b.clock.tasks + new := by
  induction acts generalizing b with
  | nil => exact ⟨0, fun _ h => absurd h (Multiset.notMem_zero _), le_of_eq (add_zero _).symm⟩
  | cons a acts ih =>
      obtain ⟨htask, hrest⟩ := List.forall_mem_cons.1 task
      obtain ⟨new, hnew, hle⟩ := tasks_apply_inTask (b := b) htask
      obtain ⟨more, hmore, hlast⟩ := ih (b := a.apply b) hrest
      refine ⟨new + more, fun c hc => (Multiset.mem_add.1 hc).elim (hnew c) (hmore c), ?_⟩
      rw [← add_assoc]
      exact hlast.trans (add_le_add_left hle more)

/-- The clock has come to its target: all timers fired that were due on the way, and those alone. -/
structure Drained (task : Code → Backend Code Store → List (Act Code Store) → Prop) (target : Nat)
    (past : List (Timer (Job Code))) (b : Backend Code Store) (block : List (Act Code Store)) : Prop where
  punctual : Punctual task past b block
  now : (b.play block).clock.now = target
  rest : ∀ t ∈ (b.play block).clock.pending, target < t.due
  targets : ∀ target', .takeDue target' ∈ block → target' = target

variable {calls : Callbacks Code (Prog Code Store)} {leave : Store → Store → Store} {target : Nat}
  {past : List (Timer (Job Code))}

theorem drained_of_none {task : Code → Backend Code Store → List (Act Code Store) → Prop}
    (timed : Timed past b) (later : b.clock.now ≤ target) (due : b.clock.takeDue? target = none) :
    Drained task target past b [.takeDue target, .reach target] where
  punctual := .of_reach timed due later
  now := rfl
  rest t ht := by
    rw [play_cons, apply_takeDue_of_none due] at ht
    exact timed.orderly.takeDue?_eq_none_iff.1 due t ht
  targets target' htarget := by simpa using htarget

/-- A task fires and what it does is done: it goes from the tasks that wait, and what it sets is smaller. -/
theorem fewer_play_takeDue {t : Timer (Job Code)} {clock : Clock (Job Code)} {inner : List (Act Code Store)}
    (due : b.clock.takeDue? target = some (t, clock)) (job : t.job = .task code)
    (inner_in : ∀ a ∈ inner, a.InTask (smaller · code)) :
    Fewer smaller (b.play (.takeDue target :: inner)).clock.tasks b.clock.tasks := by
  obtain ⟨-, hpending, -⟩ := Clock.takeDue?_eq_some due
  obtain ⟨new, hnew, hle⟩ := tasks_play_inTask (b := (Act.takeDue target).apply b) inner_in
  have hsplit : b.clock.tasks = code ::ₘ clock.tasks := by
    rw [Clock.tasks, hpending, List.filterMap_cons, job]
    rfl
  rw [apply_takeDue due] at hle
  rw [play_cons, apply_takeDue due, hsplit]
  exact fewer_of_le hnew hle

/-- A task fires, and behind what it does the clock comes to its target. -/
theorem Drained.takeDue {task : Code → Backend Code Store → List (Act Code Store) → Prop} {t : Timer (Job Code)}
    {clock : Clock (Job Code)} {inner block : List (Act Code Store)} (timed : Timed past b)
    (due : b.clock.takeDue? target = some (t, clock)) (job : t.job = .task code)
    (runs : task code ((Act.takeDue target).apply b) inner) (inner_in : ∀ a ∈ inner, a.InTask (smaller · code))
    (fired : b.fired (.takeDue target :: inner) = [t])
    (h : Drained task target (past ++ [t]) (b.play (.takeDue target :: inner)) block) :
    Drained task target past b (.takeDue target :: inner ++ block) where
  punctual := by
    refine (Punctual.of_takeDue timed due job runs inner_in).append ?_
    rw [fired]
    exact h.punctual
  now := by
    rw [play_append]
    exact h.now
  rest t' ht' := by
    rw [play_append] at ht'
    exact h.rest t' ht'
  targets target' htarget := by
    obtain hmem | hmem := List.mem_append.1 htarget
    · obtain heq | hmem := List.mem_cons.1 hmem
      · cases heq
        rfl
      · exact absurd (inner_in _ hmem) id
    · exact h.targets target' hmem

/-- The clock comes to its target in a course that is the same for every depth of calls, when there is fuel for
each timer that fires. -/
theorem exists_drained (wf : WellFounded smaller)
    (tasks : ∀ code, (calls.task code).Only fun r => r.InTask (smaller · code))
    (b : Backend Code Store) (timed : Timed past b) (later : b.clock.now ≤ target) :
    ∃ block, Drained (RunsTask calls leave) target past b block ∧
      ∀ depth, 0 < depth → ∀ fuel, (b.fired block).length < fuel → ∀ ran,
        ((calls.running leave depth).runDue target fuel ran).Does b block (ran + (b.fired block).length) := by
  induction hwaiting : b.clock.tasks using (wellFounded_fewer wf).induction generalizing b past with
  | _ waiting ih =>
    subst hwaiting
    cases hdue : b.clock.takeDue? target with
    | none =>
        refine ⟨_, drained_of_none timed later hdue, fun depth _ fuel hfuel ran => ?_⟩
        obtain ⟨fuel, rfl⟩ := Nat.exists_eq_add_one.2 (Nat.zero_lt_of_lt hfuel)
        have hfired : b.fired [.takeDue target, .reach target] = [] := by
          simp [fired, Act.fires?, hdue]
        refine Run.Does.step ?_
        simp only [takeDue, hdue, hfired]
        exact Run.Does.step (Run.does_pure _ _)
    | some taken =>
        obtain ⟨t, clock⟩ := taken
        obtain ⟨hle, hpending, hclock⟩ := Clock.takeDue?_eq_some hdue
        obtain ⟨code, hjob⟩ := timed.tasks t (hpending ▸ List.mem_cons_self)
        obtain ⟨inner, hruns, hinner⟩ :=
          exists_runsTask tasks code ((Act.takeDue target).apply b)
        obtain ⟨htimed, hnow, hnone⟩ := (timed.takeDue hdue).inTask_play hinner
        have hfired : b.fired (.takeDue target :: inner) = [t] := by rw [fired_takeDue hdue, hnone]
        have hlater : (b.play (.takeDue target :: inner)).clock.now ≤ target := by
          rw [play_cons, hnow, apply_takeDue hdue, hclock]
          exact hle
        obtain ⟨block, hblock, hdoes⟩ := ih _ (fewer_play_takeDue hdue hjob hinner) _ htimed hlater rfl
        refine ⟨_, hblock.takeDue timed hdue hjob hruns hinner hfired, fun depth hdepth fuel hfuel ran => ?_⟩
        rw [fired_append, hfired, List.singleton_append, List.length_cons] at hfuel ⊢
        obtain ⟨fuel, rfl⟩ := Nat.exists_eq_add_one.2 (Nat.zero_lt_of_lt hfuel)
        have hrest := hdoes depth hdepth fuel (Nat.lt_of_succ_lt_succ hfuel) (ran + 1)
        rw [Nat.add_right_comm] at hrest
        refine Run.Does.step ?_
        simp only [takeDue, hdue, hjob]
        exact (hruns depth hdepth).bind hrest

end Backend

/-! ## whole programs -/

/-- How a program that calls code of its own carries out a request. -/
def Callbacks.performing (calls : Callbacks Code (Prog Code Store)) (leave : Store → Store → Store)
    (fuel : Nat) (r : Request Code Store) : Run Code Store r.Answer :=
  (calls.running leave fuel).perform fuel r

section

variable {perform : (r : Request Code Store) → Run Code Store r.Answer} {b : Backend Code Store}

/-- The moves of the clock among the acts of a program. Timers are looked for only while the program moves the
clock, up to the time at which it is to arrive. Each such move ends there, with nothing due any more, and is
answered by the number of timers that fired. -/
structure Accounts (perform : (r : Request Code Store) → Run Code Store r.Answer) (p : Prog Code Store α)
    (b : Backend Code Store) (acts : List (Act Code Store)) : Prop where
  within : ∀ q target, q ++ [.takeDue target] <+: acts → ∃ before time block ran,
    p.Advances perform b before time block ran ∧ q ++ [.takeDue target] <+: before ++ block ∧
      target = (b.play before).clock.now + time
  arrives : ∀ before time, p.Asks perform b before (.advance time) → ∃ block ran,
    p.Advances perform b before time block ran ∧ before ++ block <+: acts ∧
      ran = ((b.play before).fired block).length ∧
      (b.play (before ++ block)).clock.now = (b.play before).clock.now + time ∧
      ∀ t ∈ (b.play (before ++ block)).clock.pending, (b.play before).clock.now + time < t.due

theorem Prog.Advances.later {r : Request Code Store} {next : r.Answer → Prog Code Store α}
    {first before block : List (Act Code Store)} {answer : r.Answer} {time ran : Nat}
    (does : (perform r).Does b first answer)
    (h : (next answer).Advances perform (b.play first) before time block ran) :
    (Prog.ask r next).Advances perform b (first ++ before) time block ran :=
  ⟨.later does h.asked, by simpa using h.does⟩

/-- What a program does starts with what its first request does. -/
theorem Accounts.ask {r : Request Code Store} {next : r.Answer → Prog Code Store α}
    {first acts : List (Act Code Store)} {answer : r.Answer} (does : (perform r).Does b first answer)
    (rest : Accounts perform (next answer) (b.play first) acts)
    (looks : ∀ target, .takeDue target ∈ first → ∃ time, r = .advance time ∧ target = b.clock.now + time)
    (moves : ∀ time, r = .advance time →
      (perform (.advance time)).Does b first (b.fired first).length ∧
      (b.play first).clock.now = b.clock.now + time ∧
      ∀ t ∈ (b.play first).clock.pending, b.clock.now + time < t.due) :
    Accounts perform (.ask r next) b (first ++ acts) where
  within q target hq := by
    obtain hq | ⟨q, rfl, hmid⟩ := prefix_concat_append hq
    · obtain ⟨time, rfl, htarget⟩ := looks target (hq.subset (List.mem_append_right _ (.head _)))
      exact ⟨[], time, first, _, ⟨.now, (moves time rfl).1⟩, hq, htarget⟩
    · obtain ⟨before, time, block, ran, hadvances, hblock, htarget⟩ := rest.within q target hmid
      refine ⟨first ++ before, time, block, ran, hadvances.later does, ?_, by simpa using htarget⟩
      rw [List.append_assoc, List.append_assoc, List.prefix_append_right_inj]
      exact hblock
  arrives before time hasks := by
    cases hasks with
    | now =>
        obtain ⟨hdoes, hnow, hpending⟩ := moves time rfl
        exact ⟨first, _, ⟨.now, hdoes⟩, List.prefix_append _ _, rfl, hnow, hpending⟩
    | @later _ _ _ _ first' before answer' does' hasks =>
        obtain rfl : first = first' := does.acts_eq.symm.trans does'.acts_eq
        obtain rfl : answer = answer' := Ending.value.inj (does.ending_eq.symm.trans does'.ending_eq)
        obtain ⟨block, ran, hadvances, hblock, hran, hnow, hpending⟩ := rest.arrives before time hasks
        refine ⟨block, ran, hadvances.later does, ?_, by simpa using hran, by simpa using hnow,
          by simpa using hpending⟩
        rw [List.append_assoc, List.prefix_append_right_inj]
        exact hblock

end

variable {calls : Callbacks Code (Prog Code Store)} {leave : Store → Store → Store}
  {smaller : Code → Code → Prop}

/-- A request is carried out with the same acts whenever calls may nest deeply enough. -/
theorem exists_request (wf : WellFounded smaller)
    (tasks : ∀ code, (calls.task code).Only fun r => r.InTask (smaller · code)) {r : Request Code Store}
    (main : r.InMain) {b : Backend Code Store} {past : List (Timer (Job Code))} (timed : Timed past b) :
    ∃ depth block answer, 0 < depth ∧ Punctual (RunsTask calls leave) past b block ∧
      (∀ target, .takeDue target ∈ block → ∃ time, r = .advance time ∧ target = b.clock.now + time) ∧
      ∀ fuel, depth ≤ fuel → (calls.performing leave fuel r).Does b block answer ∧ ∀ time, r = .advance time →
        (calls.performing leave fuel (.advance time)).Does b block (b.fired block).length ∧
        (b.play block).clock.now = b.clock.now + time ∧
        ∀ t ∈ (b.play block).clock.pending, b.clock.now + time < t.due := by
  by_cases hadvance : ∃ time, r = .advance time
  · obtain ⟨time, rfl⟩ := hadvance
    obtain ⟨block, hblock, hdoes⟩ :=
      exists_drained wf tasks b timed (Nat.le_add_right b.clock.now time)
    have hadvances : ∀ fuel, (b.fired block).length < fuel →
        (calls.performing leave fuel (.advance time)).Does b block (b.fired block).length := by
      intro fuel hfuel
      have hrun := hdoes fuel (Nat.zero_lt_of_lt hfuel) fuel hfuel 0
      rw [Nat.zero_add] at hrun
      exact Run.Does.read hrun
    refine ⟨(b.fired block).length + 1, block, _, Nat.succ_pos _, hblock.punctual, fun target htarget => ?_,
      fun fuel hfuel => ⟨hadvances fuel hfuel, fun time' htime => ?_⟩⟩
    · exact ⟨time, rfl, hblock.targets target htarget⟩
    · cases htime
      exact ⟨hadvances fuel hfuel, hblock.now, hblock.rest⟩
  · have htask : r.InTask fun _ => True := by
      cases r with
      | advance time => exact absurd ⟨time, rfl⟩ hadvance
      | _ => exact main
    obtain ⟨block, answer, hblock, hdoes⟩ := does_perform_inTask htask b
    refine ⟨1, block, answer, Nat.one_pos, .of_inTask timed hblock,
      fun target htarget => absurd (hblock _ htarget) id,
      fun fuel _ => ⟨hdoes _ fuel, fun time htime => absurd ⟨time, htime⟩ hadvance⟩⟩

/-- A program comes to an end, with the same acts whenever calls may nest deeply enough. -/
theorem exists_course (wf : WellFounded smaller)
    (tasks : ∀ code, (calls.task code).Only fun r => r.InTask (smaller · code)) {p : Prog Code Store α}
    (main : p.Only Request.InMain) {b : Backend Code Store} {past : List (Timer (Job Code))}
    (timed : Timed past b) : ∃ depth acts a, 0 < depth ∧ Punctual (RunsTask calls leave) past b acts ∧
      ∀ fuel, depth ≤ fuel → (p.interpret (calls.performing leave fuel)).Does b acts a ∧
        Accounts (calls.performing leave fuel) p b acts := by
  induction p generalizing b past with
  | done a =>
      refine ⟨1, [], a, Nat.one_pos, .nil timed, fun fuel _ => ⟨Run.does_pure b a, ?_⟩⟩
      exact ⟨fun q target hq => by simp at hq, fun before time hasks => nomatch hasks⟩
  | ask r next ih =>
      obtain ⟨depth, block, answer, hdepth, hblock, hlooks, hdoes⟩ :=
        exists_request wf tasks main.1 timed
      obtain ⟨depth', acts, a, -, hacts, hrest⟩ :=
        ih answer (main.2 answer) (hblock.timed block (List.prefix_refl _))
      refine ⟨max depth depth', block ++ acts, a, lt_max_of_lt_left hdepth, hblock.append hacts,
        fun fuel hfuel => ?_⟩
      obtain ⟨hfirst, hmoves⟩ := hdoes fuel (le_of_max_le_left hfuel)
      obtain ⟨hlast, haccounts⟩ := hrest fuel (le_of_max_le_right hfuel)
      exact ⟨hfirst.bind hlast, .ask hfirst haccounts hlooks hmoves⟩

/-! ## each timer -/

/-- A timer that fires, and is not taken away on the way there, has fired when that is tried. -/
theorem mem_fired_of_cancel {b : Backend Code Store} {acts set after q : List (Act Code Store)} {target : Nat}
    {t : Timer (Job Code)} (hfire : set ++ after ++ [.takeDue target] <+: acts)
    (fires : (Act.takeDue target).fires? (b.play (set ++ after)) = some t) (left : .cancel t.id ∉ after)
    (hq : set <+: q) (hcancel : q ++ [.cancel t.id] <+: acts) : t ∈ b.fired q := by
  obtain hle | hle := List.prefix_or_prefix_of_prefix hcancel hfire
  · obtain heq | hle := List.prefix_concat_iff.1 hle
    · obtain ⟨-, hact⟩ := List.append_inj' heq rfl
      cases hact
    · obtain ⟨mid, rfl⟩ := hq
      rw [List.append_assoc, List.prefix_append_right_inj] at hle
      exact absurd (hle.subset (List.mem_append_right mid (.head _))) left
  · obtain heq | hle := List.prefix_concat_iff.1 hle
    · obtain ⟨-, hact⟩ := List.append_inj' heq rfl
      cases hact
    · exact mem_fired_iff.2 ⟨_, target, hle, fires⟩

/-- A timer that was set fires just when nothing takes it away before and the clock gets there. -/
theorem Punctual.fires_iff {task : Code → Backend Code Store → List (Act Code Store) → Prop} {store : Store}
    {acts : List (Act Code Store)} (h : Punctual task [] (init store) acts)
    {perform : (r : Request Code Store) → Run Code Store r.Answer}
    {p : Prog Code Store α} (accounts : Accounts perform p (init store) acts) {pre : List (Act Code Store)}
    {delay : Nat} {job : Job Code} (hset : pre ++ [.schedule delay job] <+: acts) {t : Timer (Job Code)}
    (ht : t = ⟨((init store).play pre).clock.now + delay, ((init store).play pre).clock.nextId, job⟩) :
    t ∈ (init store).fired acts ↔
      (∀ q, pre ++ [.schedule delay job] <+: q → q ++ [.cancel t.id] <+: acts → t ∈ (init store).fired q) ∧
      ∃ before time block ran, p.Advances perform (.init store) before time block ran ∧
        pre ++ [.schedule delay job] <+: before ++ block ∧
        t.due ≤ ((init store).play before).clock.now + time := by
  constructor
  · intro hfired
    obtain ⟨q₀, target, hq₀, hfires⟩ := mem_fired_iff.1 hfired
    obtain ⟨⟨-, pre', after, delay', hq₀', ht', hcancel⟩, hdue⟩ := h.waits_of_fires hq₀ hfires
    rw [List.append_cons] at hq₀'
    subst hq₀'
    have hset' : pre' ++ [.schedule delay' t.job] <+: acts :=
      (List.prefix_append _ _).trans ((List.prefix_append _ _).trans hq₀)
    obtain rfl : pre' = pre := eq_of_nextId (b := init store) h.timing hset' hset
      (congrArg Timer.id (ht'.symm.trans ht))
    obtain rfl : delay' = delay := Nat.add_left_cancel (congrArg Timer.due (ht'.symm.trans ht))
    obtain rfl : t.job = job := congrArg Timer.job ht
    refine ⟨fun q hq hcancels => mem_fired_of_cancel hq₀ hfires hcancel hq hcancels, ?_⟩
    obtain ⟨before, time, block, ran, hadvances, hblock, rfl⟩ := accounts.within _ target hq₀
    exact ⟨before, time, block, ran, hadvances,
      (List.prefix_append _ _).trans ((List.prefix_append _ _).trans hblock), hdue⟩
  · rintro ⟨hcancel, before, time, block, ran, hadvances, hblock, hdue⟩
    obtain ⟨block', ran', hadvances', hacts, -, -, hpending⟩ := accounts.arrives before time hadvances.asked
    obtain rfl : block' = block := hadvances'.does.acts_eq.symm.trans hadvances.does.acts_eq
    have hgone : ¬ (init store).Waits t (before ++ block') := fun hwaits =>
      Nat.lt_irrefl _ (Nat.lt_of_lt_of_le (hpending t ((h.mem_pending_iff hacts).2 hwaits)) hdue)
    obtain ⟨after, hafter⟩ := hblock
    obtain rfl : t.job = job := congrArg Timer.job ht
    by_contra hunfired
    have hunfired_by {q : List (Act Code Store)} (hq : q <+: acts) : t ∉ (init store).fired q :=
      fun hfired => hunfired (fired_subset hq hfired)
    refine hgone ⟨hunfired_by hacts, pre, after, delay, by rw [← hafter]; simp, ht, fun hmem => ?_⟩
    obtain ⟨mid, rest, rfl⟩ := List.append_of_mem hmem
    have hq : pre ++ [.schedule delay t.job] ++ mid ++ [.cancel t.id] <+: acts :=
      .trans ⟨rest, by rw [← hafter]; simp⟩ hacts
    exact hunfired_by ((List.prefix_append _ _).trans hq) (hcancel _ (List.prefix_append _ _) hq)

/-- What becomes of timers in the course of a program that is carried out with calls nested to a certain
depth. -/
structure RunsInOrder (calls : Callbacks Code (Prog Code Store)) (leave : Store → Store → Store) (depth : Nat)
    (p : Prog Code Store α) (store : Store) (acts : List (Act Code Store)) : Prop where
  /-- No timer fires twice. -/
  once : (((Backend.init store).fired acts).map (·.id)).Nodup
  /-- They fire in the order in which they are due; of those due together the one set first comes first. -/
  ordered : ((Backend.init store).fired acts).Pairwise Timer.Before
  /-- A timer that is set is due after its delay. It fires just when nothing takes it away before, and a move
  of the clock in progress or made later arrives at its time or goes past it. -/
  fires_iff : ∀ pre delay code, pre ++ [.schedule delay (.task code)] <+: acts →
    let b := (Backend.init store).play pre
    let t : Timer (Job Code) := ⟨b.clock.now + delay, b.clock.nextId, .task code⟩
    (calls.performing leave depth (.schedule delay code)).Does b [.schedule delay (.task code)] t.id ∧
    (t ∈ (Backend.init store).fired acts ↔
      (∀ q, pre ++ [.schedule delay (.task code)] <+: q → q ++ [.cancel t.id] <+: acts →
        t ∈ (Backend.init store).fired q) ∧
      ∃ before time block ran,
        p.Advances (calls.performing leave depth) (.init store) before time block ran ∧
          pre ++ [.schedule delay (.task code)] <+: before ++ block ∧
          t.due ≤ ((Backend.init store).play before).clock.now + time)
  /-- Only timers fire that were set. -/
  set : ∀ t ∈ (Backend.init store).fired acts, ∃ pre delay code, pre ++ [.schedule delay (.task code)] <+: acts ∧
    t = ⟨((Backend.init store).play pre).clock.now + delay, ((Backend.init store).play pre).clock.nextId,
      .task code⟩
  /-- When a timer fires, its task runs, and meanwhile the clock shows when it was due. -/
  runs : ∀ pre target t, pre ++ [.takeDue target] <+: acts →
    (Act.takeDue target).fires? ((Backend.init store).play pre) = some t → ∃ code inner, t.job = .task code ∧
      ((calls.running leave depth).task code).Does ((Backend.init store).play (pre ++ [.takeDue target])) inner () ∧
      pre ++ .takeDue target :: inner <+: acts ∧ ∀ mid, mid <+: inner →
        ((Backend.init store).play (pre ++ .takeDue target :: mid)).clock.now = t.due
  /-- A move of the clock by some time ends that time later, and is answered by the number of timers that
  fired. -/
  advance : ∀ before time, p.Asks (calls.performing leave depth) (.init store) before (.advance time) →
    ∃ block ran, p.Advances (calls.performing leave depth) (.init store) before time block ran ∧
      before ++ block <+: acts ∧ ran = (((Backend.init store).play before).fired block).length ∧
      ((Backend.init store).play (before ++ block)).clock.now =
        ((Backend.init store).play before).clock.now + time
  /-- Whoever takes away a timer learns whether it still waited. -/
  cancel : ∀ pre id, pre ++ [.cancel id] <+: acts → ∃ answer,
    (calls.performing leave depth (.cancel id)).Does ((Backend.init store).play pre) [.cancel id] answer ∧
      (answer = true ↔ ∃ t, (Backend.init store).Waits t pre ∧ t.id = id)

/-- A program sets timers, takes them away and moves the clock; its tasks do the same, but do not move the
clock, and set only timers for smaller tasks. Then the program comes to an end when calls may nest deeply
enough, and each timer fires at most once, in order and on time. -/
theorem tasks_run_once_in_order (calls : Callbacks Code (Prog Code Store)) (leave : Store → Store → Store)
    {smaller : Code → Code → Prop} (wf : WellFounded smaller)
    (tasks : ∀ code, (calls.task code).Only fun r => r.InTask (smaller · code)) (p : Prog Code Store α)
    (main : p.Only Request.InMain) (store : Store) :
    ∃ depth acts a, ∀ fuel, depth ≤ fuel → (p.execute calls leave (fuel + 1)).Does (.init store) acts a ∧
      RunsInOrder calls leave fuel p store acts := by
  obtain ⟨depth, acts, a, hdepth, hpunctual, hdoes⟩ :=
    exists_course wf tasks main (Backend.timed_init store)
  refine ⟨depth, acts, a, fun fuel hfuel => ?_⟩
  obtain ⟨hexecute, haccounts⟩ := hdoes fuel hfuel
  have horderly : Clock.Orderly ((Backend.init store).fired acts) ((Backend.init store).play acts).clock :=
    (hpunctual.timed acts (List.prefix_refl _)).orderly
  refine ⟨hexecute, ?_, ?_, fun pre delay code hset => ?_, fun t ht => ?_, fun pre target t hq hfires => ?_,
    fun before time hasks => ?_, fun pre id hcancel => ?_⟩
  · exact horderly.nodup.sublist ((List.sublist_append_left _ _).map _)
  · exact (List.pairwise_append.1 horderly.ordered).1
  · exact ⟨Run.does_step _ _ _, hpunctual.fires_iff haccounts hset rfl⟩
  · obtain ⟨q, target, hq, hfires⟩ := Backend.mem_fired_iff.1 ht
    obtain ⟨⟨-, pre, after, delay, rfl, hset, -⟩, -⟩ := hpunctual.waits_of_fires hq hfires
    obtain ⟨code, -, hjob, -⟩ := hpunctual.runs _ target t hq hfires
    rw [hjob] at hq hset
    refine ⟨pre, delay, code, .trans ⟨after, by simp⟩ ((List.prefix_append _ _).trans hq), hset⟩
  · obtain ⟨code, inner, hjob, hruns, hinner, hnow⟩ := hpunctual.runs pre target t hq hfires
    exact ⟨code, inner, hjob, hruns fuel (Nat.lt_of_lt_of_le hdepth hfuel), hinner, hnow⟩
  · obtain ⟨block, ran, hadvances, hblock, hran, hnow, -⟩ := haccounts.arrives before time hasks
    exact ⟨block, ran, hadvances, hblock, hran, hnow⟩
  · refine ⟨_, Run.does_step _ _ _, Clock.isPending_iff.trans (exists_congr fun t => and_congr_left fun _ => ?_)⟩
    exact hpunctual.mem_pending_iff ((List.prefix_append _ _).trans hcancel)

namespace Sample

/-- A positive number sets two timers for the number below it, one of them at once, and takes the other one
away again. -/
def countingCalls : Callbacks Nat (Prog Nat Unit) where
  view _ := view ⟨"app", "", "View"⟩ ""
  init _ _ := pure (.ok ())
  adjust _ _ changes := pure (.ok changes)
  request _ _ _ := pure (.ok ())
  listener _ _ _ := pure ()
  task
    | 0 => .done ()
    | n + 1 => .ask (.schedule 0 n) fun _ => .ask (.schedule 3 n) fun id => .ask (.cancel id) fun _ => .done ()
  body _ := pure (.ok .null)

/-- Sets two timers that are due together, and moves the clock to their time. -/
def counting : Prog Nat Unit Nat :=
  .ask (.schedule 5 2) fun _ => .ask (.schedule 5 0) fun _ => .ask (.advance 5) fun ran => .done ran

-- four timers fire: the two that the program sets, and one for each number below 2
example : (counting.execute countingCalls (fun _ after => after) 6).ending (.init ()) = .value 4 := rfl

end Sample

theorem counting_in_order : ∃ depth acts a, ∀ fuel, depth ≤ fuel →
    (Sample.counting.execute Sample.countingCalls (fun _ after => after) (fuel + 1)).Does (.init ()) acts a ∧
      RunsInOrder Sample.countingCalls (fun _ after => after) fuel Sample.counting () acts := by
  refine tasks_run_once_in_order Sample.countingCalls _ wellFounded_lt (fun code => ?_) Sample.counting
    ⟨trivial, fun _ => ⟨trivial, fun _ => ⟨trivial, fun _ => trivial⟩⟩⟩ ()
  cases code with
  | zero => trivial
  | succ n => exact ⟨Nat.lt_succ_self n, fun _ => ⟨Nat.lt_succ_self n, fun _ => ⟨trivial, fun _ => trivial⟩⟩⟩

end ViewSync
