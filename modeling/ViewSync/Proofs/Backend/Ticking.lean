import ViewSync.Proofs.Backend.Rearming

/-!
# ViewSync.Proofs.Backend.Ticking

A periodic task in the course of any program. From a start on, or a reset, which is a start as well, its timer is due
one period later; it fires, the tick is taken, the session runs its code, and the task is armed anew, unless that code
started it anew or cleared it. The tick is the only time at which the task runs and has no timer.

* `Started` — the task has been started behind these acts, and has ticked so many times since then;
* `Unhindered` — the courses in which nobody takes the timer of the task away;
* `Backend.Stage`, `Backend.stage_play` — where the task is, at every point of such a course.
-/

namespace ViewSync

variable {Code Store α : Type}

/-! ## the history of a task -/

namespace Act

/-- Whether an act starts a periodic task, or clears it. -/
def sets (p : PeriodicId) : Act Code Store → Bool
  | .startPeriodic p' | .clearPeriodic p' => p' = p
  | _ => false

/-- Whether an act takes the tick of a periodic task. -/
def ticks (p : PeriodicId) : Act Code Store → Bool
  | .takeTick p' => p' = p
  | _ => false

variable {p : PeriodicId} {a : Act Code Store}

theorem ticks_iff : a.ticks p = true ↔ a = .takeTick p := by
  cases a <;> simp [ticks]

theorem sets_of_unpaced (h : a.paces p = false) : a.sets p = false := by
  cases a with
  | startPeriodic | clearPeriodic => exact h
  | _ => rfl

theorem ticks_of_unpaced (h : a.paces p = false) : a.ticks p = false := by
  cases a with
  | takeTick => exact h
  | _ => rfl

end Act

/-- Where a list is split in front of its last entry of a kind, it is split in one way. -/
theorem split_at_last {γ : Type} {f : γ → Bool} {xs ys mid mid' : List γ} {x y : γ}
    (h : xs ++ x :: mid = ys ++ y :: mid') (hx : f x = true) (hy : f y = true) (hmid : ∀ z ∈ mid, f z = false)
    (hmid' : ∀ z ∈ mid', f z = false) : xs = ys ∧ x = y ∧ mid = mid' := by
  have hnone : ∀ {between : List γ} {z rest rest'}, f z = true → (∀ z ∈ rest, f z = false) →
      rest ≠ between ++ z :: rest' := by
    rintro between z rest rest' hz hrest rfl
    have hfalse := hrest z (by simp)
    rw [hz] at hfalse
    cases hfalse
  obtain ⟨between, hys, hrest⟩ | ⟨between, hxs, hrest⟩ := List.append_eq_append_iff.1 h
  · cases between with
    | nil => exact ⟨by simpa using hys.symm, List.cons.inj hrest⟩
    | cons z between => exact absurd (List.cons.inj hrest).2 (hnone hy hmid)
  · cases between with
    | nil => exact ⟨by simpa using hxs, (List.cons.inj hrest).imp Eq.symm Eq.symm⟩
    | cons z between => exact absurd (List.cons.inj hrest).2 (hnone hx hmid')

/-- Behind `start` comes an act, and behind `q` it is the last act of its kind. -/
def LastOf (f : Act Code Store → Bool) (a : Act Code Store) (start q : List (Act Code Store)) : Prop :=
  ∃ mid, q = start ++ a :: mid ∧ ∀ x ∈ mid, f x = false

/-- Behind `opening` a periodic task is started, whether it ran before or not. Behind `q` it has neither been started
anew since then nor cleared, and its tick has been taken `n` times. -/
def Started (p : PeriodicId) (opening q : List (Act Code Store)) (n : Nat) : Prop :=
  LastOf (·.sets p) (.startPeriodic p) opening q ∧ q.countP (·.ticks p) = opening.countP (·.ticks p) + n

/-- Behind `start` the tick of a periodic task is taken, and behind `q` nothing more has been done with the task. -/
def AtWork (p : PeriodicId) (start q : List (Act Code Store)) : Prop :=
  LastOf (·.paces p) (.takeTick p) start q

section

variable {f g : Act Code Store → Bool} {p : PeriodicId} {opening start q : List (Act Code Store)} {n : Nat}
  {a x : Act Code Store}

theorem not_lastOf_nil : ¬ LastOf f a start [] := by
  rintro ⟨mid, hnil, -⟩
  simp at hnil

theorem lastOf_concat :
    LastOf f a start (q ++ [x]) ↔ (start = q ∧ x = a) ∨ LastOf f a start q ∧ f x = false := by
  constructor
  · rintro ⟨mid, hq, hmid⟩
    obtain rfl | ⟨mid, x', rfl⟩ := List.eq_nil_or_concat' mid
    · obtain ⟨rfl, hact⟩ := List.append_inj' hq rfl
      exact .inl ⟨rfl, List.singleton_inj.1 hact⟩
    · rw [← List.cons_append, ← List.append_assoc] at hq
      obtain ⟨rfl, hact⟩ := List.append_inj' hq rfl
      obtain rfl := List.singleton_inj.1 hact
      obtain ⟨hmid, hx⟩ := List.forall_mem_append.1 hmid
      exact .inr ⟨⟨mid, rfl, hmid⟩, hx x List.mem_cons_self⟩
  · rintro (⟨rfl, rfl⟩ | ⟨⟨mid, rfl, hmid⟩, hx⟩)
    · exact ⟨[], rfl, by simp⟩
    · exact ⟨mid ++ [x], by simp, List.forall_mem_append.2 ⟨hmid, by simpa using hx⟩⟩

theorem LastOf.unique {start' : List (Act Code Store)} (h : LastOf f a start q) (h' : LastOf f a start' q)
    (kind : f a = true) : start' = start := by
  obtain ⟨mid, rfl, hmid⟩ := h
  obtain ⟨mid', heq, hmid'⟩ := h'
  exact (split_at_last heq kind kind hmid hmid').1.symm

theorem LastOf.mono (h : LastOf f a start q) (weaker : ∀ x, f x = false → g x = false) : LastOf g a start q := by
  obtain ⟨mid, rfl, hmid⟩ := h
  exact ⟨mid, rfl, fun x hx => weaker x (hmid x hx)⟩

theorem LastOf.start_prefix (h : LastOf f a start q) : start <+: q := by
  obtain ⟨mid, rfl, -⟩ := h
  exact List.prefix_append _ _

namespace Started

theorem first : Started p q (q ++ [.startPeriodic p]) 0 :=
  ⟨lastOf_concat.2 (.inl ⟨rfl, rfl⟩), by simp [Act.ticks]⟩

theorem not_clear : ¬ Started p opening (q ++ [.clearPeriodic p]) n := by
  rintro ⟨hlast, -⟩
  obtain ⟨-, hact⟩ | ⟨-, hset⟩ := lastOf_concat.1 hlast
  · cases hact
  · simp [Act.sets] at hset

variable (h : Started p opening q n)

include h

/-- Acts that have nothing to do with a task leave its history. -/
theorem concat (unpaced : x.sets p = false) (unticked : x.ticks p = false) : Started p opening (q ++ [x]) n :=
  ⟨lastOf_concat.2 (.inr ⟨h.1, unpaced⟩), by simp [unticked, h.2]⟩

theorem tick : Started p opening (q ++ [.takeTick p]) (n + 1) :=
  have hticks : (Act.takeTick p : Act Code Store).ticks p = true := Act.ticks_iff.2 rfl
  ⟨lastOf_concat.2 (.inr ⟨h.1, rfl⟩), by simp [hticks, h.2, Nat.add_assoc]⟩

theorem unique {opening' : List (Act Code Store)} {n' : Nat} (h' : Started p opening' q n') :
    opening' = opening ∧ n' = n := by
  obtain rfl := h.1.unique h'.1 (by simp [Act.sets])
  exact ⟨rfl, Nat.add_left_cancel (h'.2.symm.trans h.2)⟩

omit h in
/-- A task that is started, and not by the last act, was so before. -/
theorem of_concat (h : Started p opening (q ++ [x]) n) (other : x ≠ .startPeriodic p) :
    ∃ m, Started p opening q m := by
  obtain ⟨-, hact⟩ | ⟨hlast, -⟩ := lastOf_concat.1 h.1
  · exact absurd hact other
  · have hle : opening.countP (·.ticks p) ≤ q.countP (·.ticks p) := hlast.start_prefix.sublist.countP_le
    obtain ⟨m, hm⟩ := Nat.exists_eq_add_of_le hle
    exact ⟨m, hlast, hm⟩

end Started

/-- The tick that is at work counts. -/
theorem AtWork.started (h : AtWork p start q) (before : Started p opening start n) : Started p opening q (n + 1) := by
  obtain ⟨work, rfl, hwork⟩ := h
  induction work using List.reverseRecOn with
  | nil => exact before.tick
  | append_singleton work a ih =>
      obtain ⟨hwork, ha⟩ := List.forall_mem_append.1 hwork
      have hunpaced := ha a List.mem_cons_self
      rw [← List.cons_append, ← List.append_assoc]
      exact (ih hwork).concat (Act.sets_of_unpaced hunpaced) (Act.ticks_of_unpaced hunpaced)

end

/-! ## courses without disturbance -/

/-- A course in which nobody takes away the timer of a periodic task, the program does not give up the handle of the
task, and the clock is not moved while the task is at work. -/
structure Unhindered (calls : Callbacks Code (Prog Code Store)) (leave : Store → Store → Store)
    (b : Backend Code Store) (p : PeriodicId) (s : SessionId) (acts : List (Act Code Store)) : Prop where
  timely : Timely (Fires calls leave) none b acts
  regular : b.Regular
  owned : b.Owned
  coherent : Backend.Coherent b
  known : b.hasSession s = true
  rearms : ∀ q, q ++ [.rearm p] <+: acts → b.TickEnds calls leave p q
  spared : ∀ q id, q ++ [.cancel id] <+: acts → ∀ t ∈ (b.play q).ticksOf p, t.id ≠ id
  kept : .releasePeriodic p ∉ acts
  still : ∀ q inner, b.JustFired (.tick p) q → Fires calls leave (.tick p) (b.play q) inner → q ++ inner <+: acts →
    ∀ a ∈ inner, a.movesClock = false
  builtIn : ∀ q c k, q <+: acts → (b.play q).shownIn? s = some c → (b.play q).component? c = some k →
    ∃ text, k.kind = .diagnostic text

namespace Backend.Paces

variable {b : Backend Code Store} {p : PeriodicId} {s : SessionId} {w : Nat} {code : Code} {timer : Option TimerId}
  (h : b.Paces p s w code timer false)

include h

/-- The tick of a periodic task, if its session is open. -/
theorem takeTick_eq : (b.takeTick p).1 = if (b.session s).isClosed = true then none else some (s, code) := by
  rw [Backend.takeTick, h]
  simp

theorem takeTick_of_closed (closed : (b.session s).isClosed = true) : (b.takeTick p).1 = none := by
  rw [h.takeTick_eq, if_pos closed]

theorem takeTick_of_unclosed (unclosed : (b.session s).isClosed = false) : (b.takeTick p).1 = some (s, code) := by
  rw [h.takeTick_eq, if_neg (ne_true_of_eq_false unclosed)]

end Backend.Paces

namespace Unhindered

open Backend

variable {calls : Callbacks Code (Prog Code Store)} {leave : Store → Store → Store} {b : Backend Code Store}
  {p : PeriodicId} {s : SessionId} {acts q start : List (Act Code Store)} {a : Act Code Store}
  (h : Unhindered calls leave b p s acts)

include h

/-- A closed session stays closed. -/
theorem isClosed_concat (closed : ((b.play q).session s).isClosed = true) (a : Act Code Store) :
    ((b.play (q ++ [a])).session s).isClosed = true := by
  rw [play_append]
  exact isClosed_play (h.coherent.play q) (hasSession_play h.known q) closed [a]

/-- When the timer of the task has fired its tick is taken before anything else happens. -/
theorem takeTick_of_justFired (fired : b.JustFired (.tick p) q) (hq : q ++ [a] <+: acts) : a = .takeTick p :=
  h.timely.next_of_justFired fired (fun running b => running.takeTick_prefix_fire b p) hq

/-- The tick of the task is taken only when its timer has fired. -/
theorem justFired_of_takeTick (hq : q ++ [.takeTick p] <+: acts) : b.JustFired (.tick p) q :=
  (h.timely.begins q _ (.tick p) hq rfl).resolve_left fun hnone => by cases hnone.2

/-- In the work of a tick no other tick of the task is taken. -/
theorem lastOf_takeTick {work rest : List (Act Code Store)} (fired : b.JustFired (.tick p) start)
    (fires : Fires calls leave (.tick p) (b.play start) (.takeTick p :: work ++ rest))
    (hq : start ++ (.takeTick p :: work ++ rest) <+: acts) :
    LastOf (·.ticks p) (.takeTick p) start (start ++ .takeTick p :: work) := by
  refine ⟨work, rfl, fun x hx => Bool.eq_false_iff.2 fun htick => ?_⟩
  obtain rfl := Act.ticks_iff.1 htick
  obtain ⟨before, after, rfl⟩ := List.append_of_mem hx
  have hpoint : start ++ .takeTick p :: before ++ [.takeTick p] <+: acts :=
    .trans ⟨after ++ rest, by simp⟩ hq
  obtain ⟨earlier, target, t, heq, -⟩ := h.justFired_of_takeTick hpoint
  -- the timer would have fired in the work, but the clock is not moved there
  have hmem : Act.takeDue target ∈ .takeTick p :: before := by
    have hlast := congrArg List.getLast? heq
    rw [List.getLast?_append_cons, List.getLast?_concat] at hlast
    exact List.mem_of_getLast? hlast
  have hstill := h.still start _ fired fires hq (.takeDue target) (by
    rw [← List.cons_append, List.append_assoc]
    exact List.mem_append_left _ hmem)
  cases hstill

/-- The task is armed anew behind a tick that has been taken, while the clock shows its time. -/
theorem tick_of_rearm (hq : q ++ [.rearm p] <+: acts) : ∃ start, LastOf (·.ticks p) (.takeTick p) start q ∧
    ((b.play start).takeTick p).1 ≠ none ∧ (b.play q).clock.now = (b.play start).clock.now := by
  obtain ⟨start, work, rfl, hfired, hfires⟩ := h.rearms q hq
  rw [List.append_assoc] at hq
  have hstill := h.still start _ hfired hfires hq
  obtain ⟨depth, -, heq⟩ := id hfires
  have hfirst := (calls.running leave depth).takeTick_prefix_fire (b.play start) p
  rw [← heq] at hfirst
  cases work with
  | nil => cases (List.cons_prefix_cons.1 hfirst).1
  | cons x work =>
      obtain ⟨rfl, -⟩ := List.cons_prefix_cons.1 hfirst
      refine ⟨start, h.lastOf_takeTick hfired hfires hq, fun hnone => ?_, ?_⟩
      · rw [Callbacks.acts_fire_tick_of_none _ hnone] at heq
        simp at heq
      · rw [play_append]
        exact now_play fun a ha => hstill a (List.mem_append_left _ ha)

/-- What an act does to the task. -/
theorem pacing {w : Nat} {code : Code} {timer : Option TimerId} {cleared : Bool} (hq : q ++ [a] <+: acts)
    (is : (b.play q).Paces p s w code timer cleared) (stored : ∀ t ∈ (b.play q).ticksOf p, timer = some t.id) :
    Pacing (b.play q) p s w code timer cleared a (b.play (q ++ [a])) := by
  have hbefore := (List.prefix_append _ _).trans hq
  have hmem : a ∈ acts := hq.subset List.mem_concat_self
  rw [play_append, play_cons, play_nil]
  refine is.apply (owned_play h.timely h.regular h.owned hbefore) stored ?_ ?_ ?_
  · exact fun delay job ha => h.timely.tasks delay job (ha ▸ hmem)
  · exact fun id ha => h.spared q id (ha ▸ hq)
  · exact fun ha => h.kept (ha ▸ hmem)

end Unhindered

/-! ## where a task is -/

namespace Backend

/-- A task rests: no timer of it waits, none fired just now, and no tick is at work that would arm it anew. If it is
started, its session is closed. -/
structure Rests (b : Backend Code Store) (p : PeriodicId) (s : SessionId) (w : Nat) (code : Code)
    (q : List (Act Code Store)) : Prop where
  idle : ∃ cleared, (b.play q).Paces p s w code none cleared ∧
    (cleared = true ∨ ∀ start, LastOf (·.ticks p) (.takeTick p) start q → ((b.play start).takeTick p).1 = none)
  quiet : (b.play q).ticksOf p = []
  unfired : ¬ b.JustFired (.tick p) q
  ended : ∀ opening n, Started p opening q n → ((b.play q).session s).isClosed = true

/-- Where a task is: it rests; or it is started, and its timer waits, or fired just now, or its tick is at work. The
timer is due when the next tick is. -/
inductive Stage (b : Backend Code Store) (p : PeriodicId) (s : SessionId) (w : Nat) (code : Code)
    (q : List (Act Code Store)) : Prop
  | rests (rests : b.Rests p s w code q) : Stage b p s w code q
  | waits {opening : List (Act Code Store)} {n : Nat} {t : Timer (Job Code)} (started : Started p opening q n)
      (is : (b.play q).Paces p s w code (some t.id) false) (timers : (b.play q).ticksOf p = [t])
      (due : t.due = (b.play opening).clock.now + (n + 1) * w) (unfired : ¬ b.JustFired (.tick p) q) :
      Stage b p s w code q
  | fired {opening : List (Act Code Store)} {n : Nat} {timer : Option TimerId} (started : Started p opening q n)
      (is : (b.play q).Paces p s w code timer false) (quiet : (b.play q).ticksOf p = [])
      (now : (b.play q).clock.now = (b.play opening).clock.now + (n + 1) * w) (fired : b.JustFired (.tick p) q) :
      Stage b p s w code q
  | works {opening start : List (Act Code Store)} {n : Nat} (started : Started p opening start n)
      (is : (b.play q).Paces p s w code none false) (quiet : (b.play q).ticksOf p = [])
      (unfired : ¬ b.JustFired (.tick p) q) (work : AtWork p start q) (fired : b.JustFired (.tick p) start)
      (now : (b.play start).clock.now = (b.play opening).clock.now + (n + 1) * w)
      (taken : ((b.play start).takeTick p).1 = some (s, code)) : Stage b p s w code q

variable {calls : Callbacks Code (Prog Code Store)} {leave : Store → Store → Store} {b : Backend Code Store}
  {p : PeriodicId} {s : SessionId} {w : Nat} {code : Code} {acts opening start q : List (Act Code Store)} {n : Nat}
  {a : Act Code Store}

/-- Acts that take no timer leave none that fired just now. -/
theorem not_justFired_concat {job : Job Code} (fires : ∀ t, a.fires? (b.play q) = some t → t.job ≠ job) :
    ¬ b.JustFired job (q ++ [a]) := by
  intro hfired
  obtain ⟨t, ht, hjob⟩ := justFired_concat.1 hfired
  exact fires t ht hjob

theorem not_justFired_concat_of_none {job : Job Code} (fires : a.fires? (b.play q) = none) :
    ¬ b.JustFired job (q ++ [a]) :=
  not_justFired_concat fun _ ht => by cases fires.symm.trans ht

/-- A task that was started just now waits for its first tick. -/
theorem Stage.of_started (is : (b.play (q ++ [.startPeriodic p])).Paces p s w code (some (b.play q).clock.nextId) false)
    (timers : (b.play (q ++ [.startPeriodic p])).ticksOf p =
      [⟨(b.play q).clock.now + w, (b.play q).clock.nextId, .tick p⟩]) :
    b.Stage p s w code (q ++ [.startPeriodic p]) :=
  .waits .first is timers (by simp) (not_justFired_concat_of_none rfl)

/-- A task that was cleared just now rests. -/
theorem Rests.of_cleared (is : (b.play (q ++ [.clearPeriodic p])).Paces p s w code none true)
    (timers : (b.play (q ++ [.clearPeriodic p])).ticksOf p = []) : b.Rests p s w code (q ++ [.clearPeriodic p]) where
  idle := ⟨true, is, .inl rfl⟩
  quiet := timers
  unfired := not_justFired_concat_of_none rfl
  ended _ _ hstarted := absurd hstarted Started.not_clear

section

variable (h : Unhindered calls leave b p s acts) (hq : q ++ [a] <+: acts)

include h hq

/-- A task that rests goes on to rest, unless it is started. -/
theorem Rests.concat (rests : b.Rests p s w code q) (other : a ≠ .startPeriodic p) :
    b.Rests p s w code (q ++ [a]) := by
  obtain ⟨cleared, his, hspent⟩ := rests.idle
  have hended : ∀ opening n, Started p opening (q ++ [a]) n → ((b.play (q ++ [a])).session s).isClosed = true := by
    intro opening n hstarted
    obtain ⟨m, hbefore⟩ := hstarted.of_concat other
    exact h.isClosed_concat (rests.ended opening m hbefore) a
  have hspent' : a.ticks p = false → cleared = true ∨
      ∀ start, LastOf (·.ticks p) (.takeTick p) start (q ++ [a]) → ((b.play start).takeTick p).1 = none := by
    intro htick
    refine hspent.imp_right fun huntaken start hlast => ?_
    obtain ⟨-, rfl⟩ | ⟨hbefore, -⟩ := lastOf_concat.1 hlast
    · cases (Act.ticks_iff.2 rfl).symm.trans htick
    · exact huntaken start hbefore
  have hpacing := h.pacing hq his (by simp [rests.quiet])
  generalize hb : b.play (q ++ [a]) = b' at hpacing
  cases hpacing with
  | idle unpaced fires is timers =>
      exact ⟨⟨cleared, hb ▸ is, hspent' (Act.ticks_of_unpaced unpaced)⟩, by rw [hb, timers, rests.quiet],
        not_justFired_concat fires, hended⟩
  | started => exact absurd rfl other
  | cleared is timers => exact .of_cleared (hb ▸ is) (hb ▸ timers)
  | fired _ _ _ timers =>
      rw [rests.quiet] at timers
      cases timers
  | taken => exact absurd (h.justFired_of_takeTick hq) rests.unfired
  | rearmed =>
      obtain ⟨start, hlast, htaken, -⟩ := h.tick_of_rearm hq
      obtain hcleared | huntaken := hspent
      · cases hcleared
      · exact absurd (huntaken start hlast) htaken
  | skipped busy is timers =>
      exact ⟨⟨cleared, hb ▸ is, hspent' rfl⟩, by rw [hb, timers, rests.quiet], not_justFired_concat_of_none rfl, hended⟩

/-- The timer of a task waits until it fires, unless the task is started anew or cleared. -/
theorem Stage.concat_waits {t : Timer (Job Code)} (started : Started p opening q n)
    (is : (b.play q).Paces p s w code (some t.id) false) (timers : (b.play q).ticksOf p = [t])
    (due : t.due = (b.play opening).clock.now + (n + 1) * w) (unfired : ¬ b.JustFired (.tick p) q) :
    b.Stage p s w code (q ++ [a]) := by
  have hpacing := h.pacing hq is (by simp [timers])
  generalize hb : b.play (q ++ [a]) = b' at hpacing
  cases hpacing with
  | idle unpaced fires is timers' =>
      have hstarted := started.concat (Act.sets_of_unpaced unpaced) (Act.ticks_of_unpaced unpaced)
      exact .waits hstarted (hb ▸ is) (by rw [hb, timers', timers]) due (not_justFired_concat fires)
  | started is timers => exact .of_started (hb ▸ is) (hb ▸ timers)
  | cleared is timers => exact .rests (.of_cleared (hb ▸ is) (hb ▸ timers))
  | fired fires job is timers' now =>
      rw [timers] at timers'
      obtain ⟨rfl, hnil⟩ := List.cons_eq_cons.1 timers'
      exact .fired (started.concat rfl rfl) (hb ▸ is) (hb ▸ hnil.symm) (by rw [hb, now, due])
        (justFired_concat.2 ⟨t, fires, job⟩)
  | taken => exact absurd (h.justFired_of_takeTick hq) unfired
  | skipped busy is timers' =>
      exact .waits (started.concat rfl rfl) (hb ▸ is) (by rw [hb, timers', timers]) due
        (not_justFired_concat_of_none rfl)

/-- A task whose session is closed rests when its timer has fired. -/
theorem Rests.of_taken {timer : Option TimerId} (is : (b.play q).Paces p s w code timer false)
    (quiet : (b.play q).ticksOf p = []) (fired : b.JustFired (.tick p) q)
    (closed : ((b.play q).session s).isClosed = true) : b.Rests p s w code (q ++ [a]) := by
  obtain rfl := h.takeTick_of_justFired fired hq
  have hpacing := h.pacing hq is (by simp [quiet])
  have huntaken : ((b.play q).takeTick p).1 = none := is.takeTick_of_closed closed
  generalize hb : b.play (q ++ [.takeTick p]) = b' at hpacing
  cases hpacing with
  | idle unpaced => simp [Act.paces] at unpaced
  | taken is timers =>
      refine ⟨⟨false, hb ▸ is, .inr fun start hlast => ?_⟩, by rw [hb, timers, quiet], not_justFired_concat_of_none rfl,
        fun _ _ _ => h.isClosed_concat closed _⟩
      obtain ⟨rfl, -⟩ | ⟨-, htick⟩ := lastOf_concat.1 hlast
      · exact huntaken
      · cases (Act.ticks_iff.2 rfl).symm.trans htick

/-- When the timer of a task has fired, its tick is taken and gets to work, unless the session is closed. -/
theorem Stage.concat_fired {timer : Option TimerId} (started : Started p opening q n)
    (is : (b.play q).Paces p s w code timer false) (quiet : (b.play q).ticksOf p = [])
    (now : (b.play q).clock.now = (b.play opening).clock.now + (n + 1) * w) (fired : b.JustFired (.tick p) q) :
    b.Stage p s w code (q ++ [a]) := by
  cases hclosed : ((b.play q).session s).isClosed with
  | true => exact .rests (.of_taken h hq is quiet fired hclosed)
  | false =>
      obtain rfl := h.takeTick_of_justFired fired hq
      have hpacing := h.pacing hq is (by simp [quiet])
      have htaken : ((b.play q).takeTick p).1 = some (s, code) := is.takeTick_of_unclosed hclosed
      generalize hb : b.play (q ++ [.takeTick p]) = b' at hpacing
      cases hpacing with
      | idle unpaced => simp [Act.paces] at unpaced
      | taken is timers =>
          exact .works started (hb ▸ is) (by rw [hb, timers, quiet]) (not_justFired_concat_of_none rfl)
            (lastOf_concat.2 (.inl ⟨rfl, rfl⟩)) fired now htaken

/-- The tick of a task works until the task is armed anew, unless the task is started anew or cleared. -/
theorem Stage.concat_works (started : Started p opening start n) (is : (b.play q).Paces p s w code none false)
    (quiet : (b.play q).ticksOf p = []) (unfired : ¬ b.JustFired (.tick p) q) (work : AtWork p start q)
    (fired : b.JustFired (.tick p) start)
    (now : (b.play start).clock.now = (b.play opening).clock.now + (n + 1) * w)
    (taken : ((b.play start).takeTick p).1 = some (s, code)) : b.Stage p s w code (q ++ [a]) := by
  have hpacing := h.pacing hq is (by simp [quiet])
  generalize hb : b.play (q ++ [a]) = b' at hpacing
  cases hpacing with
  | idle unpaced fires is timers =>
      exact .works started (hb ▸ is) (by rw [hb, timers, quiet]) (not_justFired_concat fires)
        (lastOf_concat.2 (.inr ⟨work, unpaced⟩)) fired now taken
  | started is timers => exact .of_started (hb ▸ is) (hb ▸ timers)
  | cleared is timers => exact .rests (.of_cleared (hb ▸ is) (hb ▸ timers))
  | fired _ _ _ timers =>
      rw [quiet] at timers
      cases timers
  | taken => exact absurd (h.justFired_of_takeTick hq) unfired
  | rearmed is timers =>
      -- the tick that comes to its end is the one that is at work
      obtain ⟨start', hlast, -, hnow⟩ := h.tick_of_rearm hq
      obtain rfl := hlast.unique (work.mono fun _ => Act.ticks_of_unpaced) (Act.ticks_iff.2 rfl)
      refine .waits ((work.started started).concat rfl rfl) (hb ▸ is) (hb ▸ timers) ?_
        (not_justFired_concat_of_none rfl)
      show (b.play q).clock.now + w = _
      rw [hnow, now, Nat.add_assoc, ← Nat.succ_mul]
  | skipped busy => simp at busy

/-- At the next point a task is in one of the stages. -/
theorem Stage.concat (stage : b.Stage p s w code q) : b.Stage p s w code (q ++ [a]) := by
  cases stage with
  | rests rests =>
      by_cases hstart : a = .startPeriodic p
      · subst hstart
        obtain ⟨cleared, his, -⟩ := rests.idle
        have hpacing := h.pacing hq his (by simp [rests.quiet])
        generalize hb : b.play (q ++ [.startPeriodic p]) = b' at hpacing
        cases hpacing with
        | idle unpaced => simp [Act.paces] at unpaced
        | started is timers => exact .of_started (hb ▸ is) (hb ▸ timers)
      · exact .rests (rests.concat h hq hstart)
  | waits started is timers due unfired => exact .concat_waits h hq started is timers due unfired
  | fired started is quiet now fired => exact .concat_fired h hq started is quiet now fired
  | works started is quiet unfired work fired now taken =>
      exact .concat_works h hq started is quiet unfired work fired now taken

end

/-- A task is in one of the stages at every point. -/
theorem stage_play (h : Unhindered calls leave b p s acts) (start : b.Rests p s w code []) (hq : q <+: acts) :
    b.Stage p s w code q := by
  induction q using List.reverseRecOn with
  | nil => exact .rests start
  | append_singleton q a ih => exact .concat h hq (ih ((List.prefix_append _ _).trans hq))

end Backend

end ViewSync
