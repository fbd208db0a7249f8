import ViewSync.Proofs.Backend.Activation
import ViewSync.Proofs.Backend.Debouncers
import ViewSync.Proofs.Backend.Execute

/-!
# ViewSync.Proofs.Backend.Debouncing

The windows of a debouncer, in the course of any program. A call that comes while none waits opens a window.
The calls that come until the timer fires take the place of the one that waits and leave the timer. When it
fires, the latest call is taken, and the session runs it.

* `Backend.Window` — a window is open: which call opened it, and which one is the latest;
* `Tracks` — the state of the debouncer fits the calls that came, at every point;
* `Ends` — the end of a window;
* `RunsLatest`, `debouncer_runs_latest_call` — what becomes of windows and of calls.
-/

namespace ViewSync

variable {Code Store α : Type}

/-! ## windows -/

/-- The latest call of a debouncer behind an act. -/
def Act.latest (d : DebouncerId) (code : Code) : Act Code Store → Code
  | .callDebouncer d' code' => if d' = d then code' else code
  | _ => code

theorem Act.latest_of_unconcerned {d : DebouncerId} {code : Code} {a : Act Code Store}
    (h : a.concerns d = false) : a.latest d code = code := by
  cases a with
  | callDebouncer d' code' => exact if_neg (by simpa [concerns] using h)
  | _ => rfl

namespace Backend

/-- Behind `opening` no call of a debouncer waits, and the call that comes next opens a window. Behind `q` none
has been taken since then, and the latest call is this one. -/
def Window (b : Backend Code Store) (d : DebouncerId) (opening q : List (Act Code Store)) (code : Code) : Prop :=
  (b.play opening).callWaits d = false ∧ ∃ first mid, q = opening ++ .callDebouncer d first :: mid ∧
    .takeCall d ∉ mid ∧ mid.foldl (Act.latest d) first = code

variable {b : Backend Code Store} {d : DebouncerId} {opening q : List (Act Code Store)} {code : Code}
  {a : Act Code Store}

/-- A window is open behind one more act when that act opens it, or when it was open and the act does not take
its call. -/
theorem window_concat : b.Window d opening (q ++ [a]) code ↔
    (opening = q ∧ a = .callDebouncer d code ∧ (b.play q).callWaits d = false) ∨
      ∃ old, b.Window d opening q old ∧ a ≠ .takeCall d ∧ a.latest d old = code := by
  constructor
  · rintro ⟨hfree, first, mid, hq, htaken, hlatest⟩
    obtain rfl | ⟨mid, a', rfl⟩ := List.eq_nil_or_concat' mid
    · obtain ⟨rfl, hact⟩ := List.append_inj' hq rfl
      obtain rfl := List.singleton_inj.1 hact
      exact .inl ⟨rfl, by rw [← hlatest]; rfl, hfree⟩
    · rw [← List.cons_append, ← List.append_assoc] at hq
      obtain ⟨rfl, hact⟩ := List.append_inj' hq rfl
      obtain rfl := List.singleton_inj.1 hact
      rw [List.mem_append, List.mem_singleton, not_or] at htaken
      rw [List.foldl_append] at hlatest
      exact .inr ⟨_, ⟨hfree, first, mid, rfl, htaken.1, rfl⟩, Ne.symm htaken.2, hlatest⟩
  · rintro (⟨rfl, rfl, hfree⟩ | ⟨old, ⟨hfree, first, mid, rfl, htaken, rfl⟩, hne, rfl⟩)
    · exact ⟨hfree, code, [], rfl, List.not_mem_nil, rfl⟩
    · refine ⟨hfree, first, mid ++ [a], by simp, ?_, by rw [List.foldl_append]; rfl⟩
      rw [List.mem_append, List.mem_singleton, not_or]
      exact ⟨htaken, Ne.symm hne⟩

theorem Window.code_unique {code' : Code} (h : b.Window d opening q code) (h' : b.Window d opening q code') :
    code' = code := by
  obtain ⟨-, first, mid, rfl, -, rfl⟩ := h
  obtain ⟨-, first', mid', heq, -, rfl⟩ := h'
  obtain ⟨hfirst, rfl⟩ := List.cons.inj (List.append_cancel_left heq)
  rw [(Act.callDebouncer.inj hfirst).2]

/-- While a window is open its call is not taken. -/
theorem Window.not_taken {q' : List (Act Code Store)} {code' : Code} (h : b.Window d opening q code)
    (h' : b.Window d opening q' code') : ¬ q ++ [.takeCall d] <+: q' := by
  rintro ⟨rest, hrest⟩
  obtain ⟨-, first, mid, rfl, -⟩ := h
  obtain ⟨-, first', mid', rfl, htaken, -⟩ := h'
  simp only [List.append_assoc, List.cons_append, List.append_cancel_left_eq, List.cons.injEq] at hrest
  exact htaken (hrest.2 ▸ by simp)

/-- A window that is open behind acts that do not concern the debouncer has the same latest call. -/
theorem Window.later (h : b.Window d opening q code) {mid : List (Act Code Store)}
    (unconcerned : ∀ a ∈ mid, a.concerns d = false) : b.Window d opening (q ++ mid) code := by
  induction mid using List.reverseRecOn with
  | nil => simpa using h
  | append_singleton mid a ih =>
      obtain ⟨hmid, ha⟩ := List.forall_mem_append.1 unconcerned
      have hconcerns := List.forall_mem_singleton.1 ha
      rw [← List.append_assoc]
      refine window_concat.2 (.inr ⟨code, ih hmid, fun heq => ?_, Act.latest_of_unconcerned hconcerns⟩)
      rw [heq] at hconcerns
      simp [Act.concerns] at hconcerns

/-- Acts that do not concern the debouncer leave the window as it is. -/
theorem window_concat_of_unconcerned (unconcerned : a.concerns d = false) :
    b.Window d opening (q ++ [a]) code ↔ b.Window d opening q code := by
  refine ⟨fun hwindow => ?_, fun hwindow => hwindow.later (List.forall_mem_singleton.2 unconcerned)⟩
  obtain ⟨rfl, rfl, -⟩ | ⟨old, hold, -, hlatest⟩ := window_concat.1 hwindow
  · simp [Act.concerns] at unconcerned
  · rw [Act.latest_of_unconcerned unconcerned] at hlatest
    exact hlatest ▸ hold

/-- No window is open behind the act that takes its call. -/
theorem not_window_takeCall : ¬ b.Window d opening (q ++ [.takeCall d]) code := by
  intro hwindow
  obtain ⟨-, hact, -⟩ | ⟨-, -, hne, -⟩ := window_concat.1 hwindow
  · cases hact
  · exact hne rfl

/-- A call is no timer that fires. -/
theorem not_justFired_callDebouncer {job : Job Code} : ¬ b.JustFired job (q ++ [.callDebouncer d code]) := by
  intro hfired
  obtain ⟨t, ht, -⟩ := justFired_concat.1 hfired
  cases ht

/-! ## the state of a debouncer -/

/-- At a point the state of a debouncer fits the calls that came. A call waits just while a window is open, and
it is the latest one. The debouncer has one timer then, which is due when the window ends, unless that timer
fired just now; and otherwise it has none. -/
structure Tracks (b : Backend Code Store) (d : DebouncerId) (s : SessionId) (w : Nat)
    (q : List (Act Code Store)) (call : Option Code) : Prop where
  is : (b.play q).Debounces d s w call
  waits_iff : ∀ code, call = some code ↔ ∃ opening, b.Window d opening q code
  quiet : call = none → (b.play q).timersOf d = []
  timer : ∀ opening code, b.Window d opening q code →
    (b.JustFired (.debounced d) q ∧ (b.play q).clock.now = (b.play opening).clock.now + w) ∨
      ∃ t, (b.play q).timersOf d = [t] ∧ t.due = (b.play opening).clock.now + w
  fired : b.JustFired (.debounced d) q → call ≠ none ∧ (b.play q).timersOf d = []

namespace Tracks

variable {s : SessionId} {w : Nat} {call : Option Code} {code' : Code}

/-- A call that comes while none waits opens a window. -/
theorem window_opened (h : b.Tracks d s w q none) :
    b.Window d opening (q ++ [.callDebouncer d code]) code' ↔ opening = q ∧ code' = code := by
  rw [window_concat]
  constructor
  · rintro (⟨hopening, hact, -⟩ | ⟨old, hold, -⟩)
    · exact ⟨hopening, (Act.callDebouncer.inj hact).2.symm⟩
    · cases (h.waits_iff old).2 ⟨opening, hold⟩
  · rintro ⟨rfl, rfl⟩
    exact .inl ⟨rfl, rfl, h.is.callWaits⟩

/-- A call that comes while one waits takes its place. -/
theorem window_replaced {old : Code} (h : b.Tracks d s w q (some old)) :
    b.Window d opening (q ++ [.callDebouncer d code]) code' ↔ b.Window d opening q old ∧ code' = code := by
  rw [window_concat]
  constructor
  · rintro (⟨-, -, hnone⟩ | ⟨old', hold, -, hlatest⟩)
    · rw [h.is.callWaits] at hnone
      cases hnone
    · obtain rfl : old = old' := Option.some.inj ((h.waits_iff old').2 ⟨opening, hold⟩)
      exact ⟨hold, by simpa [Act.latest] using hlatest.symm⟩
  · rintro ⟨hold, rfl⟩
    exact .inr ⟨old, hold, by simp, by simp [Act.latest]⟩

/-! Behind one more act the state still fits. Where a window is open and its call is not taken next, the timer of
the debouncer waits. -/

theorem concat_idle (h : b.Tracks d s w q call) (unconcerned : a.concerns d = false)
    (fires : ∀ t, a.fires? (b.play q) = some t → t.job ≠ .debounced d)
    (is : (b.play (q ++ [a])).Debounces d s w call)
    (timers : (b.play (q ++ [a])).timersOf d = (b.play q).timersOf d)
    (timer : ∀ opening code, b.Window d opening q code →
      ∃ t, (b.play q).timersOf d = [t] ∧ t.due = (b.play opening).clock.now + w) :
    b.Tracks d s w (q ++ [a]) call where
  is := is
  waits_iff code := by simp only [window_concat_of_unconcerned unconcerned, h.waits_iff]
  quiet hnone := by rw [timers, h.quiet hnone]
  timer opening code hwindow := by
    rw [timers]
    exact .inr (timer opening code ((window_concat_of_unconcerned unconcerned).1 hwindow))
  fired hfired := by
    obtain ⟨t, ht, hjob⟩ := justFired_concat.1 hfired
    exact absurd hjob (fires t ht)

theorem concat_opened (h : b.Tracks d s w q none)
    (is : (b.play (q ++ [.callDebouncer d code])).Debounces d s w (some code))
    (timers : (b.play q).timersOf d = [] → (b.play (q ++ [.callDebouncer d code])).timersOf d =
      [⟨(b.play q).clock.now + w, (b.play q).clock.nextId, .debounced d⟩]) :
    b.Tracks d s w (q ++ [.callDebouncer d code]) (some code) where
  is := is
  waits_iff code' := by simp [h.window_opened, eq_comm]
  quiet hnone := by cases hnone
  timer opening code' hwindow := by
    obtain ⟨rfl, -⟩ := h.window_opened.1 hwindow
    exact .inr ⟨_, timers (h.quiet rfl), rfl⟩
  fired hfired := absurd hfired not_justFired_callDebouncer

theorem concat_replaced {old : Code} (h : b.Tracks d s w q (some old))
    (is : (b.play (q ++ [.callDebouncer d code])).Debounces d s w (some code))
    (timers : (b.play (q ++ [.callDebouncer d code])).timersOf d = (b.play q).timersOf d)
    (timer : ∀ opening code, b.Window d opening q code →
      ∃ t, (b.play q).timersOf d = [t] ∧ t.due = (b.play opening).clock.now + w) :
    b.Tracks d s w (q ++ [.callDebouncer d code]) (some code) where
  is := is
  waits_iff code' := by
    obtain ⟨opening, hold⟩ := (h.waits_iff old).1 rfl
    simp only [h.window_replaced, Option.some.injEq]
    constructor
    · exact fun heq => ⟨opening, hold, heq.symm⟩
    · rintro ⟨-, -, heq⟩
      exact heq.symm
  quiet hnone := by cases hnone
  timer opening code' hwindow := by
    rw [timers]
    exact .inr (timer opening old (h.window_replaced.1 hwindow).1)
  fired hfired := absurd hfired not_justFired_callDebouncer

theorem concat_fired {target : Nat} {t : Timer (Job Code)} (h : b.Tracks d s w q call)
    (fires : (Act.takeDue target).fires? (b.play q) = some t) (job : t.job = .debounced d)
    (is : (b.play (q ++ [.takeDue target])).Debounces d s w call)
    (timers : (b.play q).timersOf d = t :: (b.play (q ++ [.takeDue target])).timersOf d)
    (now : (b.play (q ++ [.takeDue target])).clock.now = t.due)
    (timer : ∀ opening code, b.Window d opening q code →
      ∃ t, (b.play q).timersOf d = [t] ∧ t.due = (b.play opening).clock.now + w) :
    b.Tracks d s w (q ++ [.takeDue target]) call := by
  have hsame : ∀ {opening code}, b.Window d opening (q ++ [.takeDue target]) code ↔ b.Window d opening q code :=
    window_concat_of_unconcerned rfl
  have hleft : ∀ opening code, b.Window d opening q code →
      (b.play (q ++ [.takeDue target])).timersOf d = [] ∧ t.due = (b.play opening).clock.now + w := by
    intro opening code hwindow
    obtain ⟨t', ht', hdue⟩ := timer opening code hwindow
    rw [timers] at ht'
    obtain ⟨rfl, hnil⟩ := List.cons_eq_cons.1 ht'
    exact ⟨hnil, hdue⟩
  have hsome : call ≠ none := fun hnone => by
    rw [h.quiet hnone] at timers
    cases timers
  obtain ⟨latest, hlatest⟩ := Option.ne_none_iff_exists'.1 hsome
  obtain ⟨opening, hopen⟩ := (h.waits_iff latest).1 hlatest
  exact {
    is
    waits_iff code := by simp only [hsame, h.waits_iff]
    quiet hnone := absurd hnone hsome
    timer opening code hwindow := by
      refine .inl ⟨justFired_concat.2 ⟨t, fires, job⟩, ?_⟩
      rw [now, (hleft opening code (hsame.1 hwindow)).2]
    fired _ := ⟨hsome, (hleft opening latest hopen).1⟩ }

theorem concat_taken (h : b.Tracks d s w q call) (is : (b.play (q ++ [.takeCall d])).Debounces d s w none)
    (timers : (b.play (q ++ [.takeCall d])).timersOf d = (b.play q).timersOf d)
    (justFired : b.JustFired (.debounced d) q) : b.Tracks d s w (q ++ [.takeCall d]) none where
  is := is
  waits_iff code := by simp [not_window_takeCall]
  quiet _ := by rw [timers, (h.fired justFired).2]
  timer opening code hwindow := absurd hwindow not_window_takeCall
  fired hfired := by
    obtain ⟨t, ht, -⟩ := justFired_concat.1 hfired
    cases ht

end Tracks

end Backend

/-! ## from point to point -/

/-- When the timer of a debouncer fires, its call is taken first. -/
theorem Callbacks.takeCall_prefix_fire (calls : Callbacks Code (Run Code Store)) (b : Backend Code Store)
    (d : DebouncerId) : [.takeCall d] <+: (calls.fire (.debounced d)).acts b := by
  unfold Callbacks.fire
  rw [Run.acts_step_bind]
  exact List.prefix_append [_] _

/-- The session runs the call that is taken. -/
theorem Callbacks.acts_fire_debounced (calls : Callbacks Code (Run Code Store)) {b : Backend Code Store}
    {d : DebouncerId} {s : SessionId} {code : Code} (taken : (b.takeCall d).1 = some (s, code)) :
    (calls.fire (.debounced d)).acts b =
      .takeCall d :: (calls.run s (calls.body code)).acts (b.takeCall d).2 := by
  unfold Callbacks.fire
  rw [Run.acts_step_bind, taken]
  exact congrArg (Act.takeCall d :: ·) (Run.acts_bind_pure _ () _)

section

variable {calls : Callbacks Code (Prog Code Store)} {leave : Store → Store → Store} {b : Backend Code Store}
  {d : DebouncerId} {s : SessionId} {w : Nat} {acts q : List (Act Code Store)} {a : Act Code Store}
  (timely : Timely (Fires calls leave) none b acts)

include timely

/-- When the timer of a debouncer has fired, its call is taken before anything else happens. -/
theorem Timely.takeCall_of_justFired (fired : b.JustFired (.debounced d) q) (hq : q ++ [a] <+: acts) :
    a = .takeCall d :=
  timely.next_of_justFired fired (fun running b => running.takeCall_prefix_fire b d) hq

namespace Backend

/-- Unless its call is taken next, the timer of a debouncer waits as long as a window is open. -/
theorem Tracks.timer_of_ne_takeCall {call : Option Code} (h : b.Tracks d s w q call) (hq : q ++ [a] <+: acts)
    (hne : a ≠ .takeCall d) : ∀ opening code, b.Window d opening q code →
      ∃ t, (b.play q).timersOf d = [t] ∧ t.due = (b.play opening).clock.now + w := by
  intro opening code hwindow
  refine (h.timer opening code hwindow).resolve_left fun hfired => ?_
  exact hne (timely.takeCall_of_justFired hfired.1 hq)

/-- At the next point the state of a debouncer still fits the calls. -/
theorem Tracks.concat {call : Option Code} (h : b.Tracks d s w q call) (regular : (b.play q).Regular)
    (hq : q ++ [a] <+: acts) (spared : ∀ id, a = .cancel id → ∀ t ∈ (b.play q).timersOf d, t.id ≠ id) :
    ∃ call', b.Tracks d s w (q ++ [a]) call' := by
  have htasks : ∀ delay job, a = .schedule delay job → ∃ code, job = .task code := fun delay job ha =>
    timely.tasks delay job (ha ▸ hq.subset List.mem_concat_self)
  have htimer := h.timer_of_ne_takeCall timely hq
  have hplay : a.apply (b.play q) = b.play (q ++ [a]) := by simp
  cases hplay ▸ debouncing_apply regular h.is htasks spared with
  | idle hconcerns hfires his htimers =>
      have hne : a ≠ .takeCall d := fun heq => by simp [heq, Act.concerns] at hconcerns
      exact ⟨call, h.concat_idle hconcerns hfires his htimers (htimer hne)⟩
  | opened his htimers => exact ⟨_, h.concat_opened his htimers⟩
  | replaced his htimers => exact ⟨_, h.concat_replaced his htimers (htimer (by simp))⟩
  | fired hfires hjob his htimers hnow =>
      exact ⟨call, h.concat_fired hfires hjob his htimers hnow (htimer (by simp))⟩
  | taken his htimers =>
      refine ⟨none, h.concat_taken his htimers ?_⟩
      obtain ⟨-, hnone⟩ | hfired := timely.begins q _ (.debounced d) hq rfl
      · cases hnone
      · exact hfired

omit timely in
/-- A debouncer that was just made is quiet. -/
theorem tracks_newDebouncer (regular : b.Regular) (s : SessionId) (w : Nat) :
    (b.newDebouncer s w).2.Tracks (b.newDebouncer s w).1 s w [] none := by
  have hnone : ∀ {opening : List (Act Code Store)} {code : Code},
      ¬ (b.newDebouncer s w).2.Window (b.newDebouncer s w).1 opening [] code := by
    rintro opening code ⟨-, first, mid, hnil, -⟩
    simp at hnil
  have htimers : (b.newDebouncer s w).2.timersOf (b.newDebouncer s w).1 = [] := by
    refine List.eq_nil_iff_forall_not_mem.2 fun t ht => ?_
    obtain ⟨hpending, hjob⟩ := mem_timersOf.1 ht
    exact Nat.lt_irrefl _ (regular.numbered _ (regular.known t hpending _ hjob))
  exact ⟨⟨true, Table.get?_insert_self⟩, fun code => by simp [hnone], fun _ => htimers,
    fun _ _ hwindow => absurd hwindow hnone, fun hfired => absurd hfired not_justFired_nil⟩

/-- The state of a debouncer fits the calls at every point. -/
theorem tracks_play (regular : b.Regular) (start : b.Tracks d s w [] none)
    (spared : ∀ q id, q ++ [.cancel id] <+: acts → ∀ t ∈ (b.play q).timersOf d, t.id ≠ id) (hq : q <+: acts) :
    ∃ call, b.Tracks d s w q call := by
  induction q using List.reverseRecOn with
  | nil => exact ⟨none, start⟩
  | append_singleton q a ih =>
      have hbefore : q <+: acts := (List.prefix_append _ _).trans hq
      obtain ⟨call, h⟩ := ih hbefore
      exact h.concat timely (regular_play timely regular hbefore) hq fun id ha => spared q id (ha ▸ hq)

end Backend

end

/-! ## the end of a window -/

/-- Code that a session runs begins behind the activation of the session. -/
theorem Callbacks.body_prefix_run (calls : Callbacks Code (Run Code Store)) (s : SessionId)
    (body : Run Code Store (Except Failure Json)) (b : Backend Code Store) :
    .enter s false :: body.acts (b.enter s false).2 <+: (calls.run s body).acts b := by
  have hbody : ∀ {β γ : Type} (f : Ending (Except Panic (Except Failure Json)) → Run Code Store β)
      (g : Ending β → Run Code Store γ) (b' : Backend Code Store),
      body.acts b' <+: ((body.catchPanic.andThen f).andThen g).acts b' := by
    intro β γ f g b'
    rw [Run.acts_andThen, Run.acts_andThen, Run.catchPanic, Run.acts_andThen, List.append_assoc,
      List.append_assoc]
    exact List.prefix_append _ _
  exact List.cons_prefix_cons.2 ⟨rfl, hbody _ _ _⟩

namespace Backend

variable {calls : Callbacks Code (Prog Code Store)} {leave : Store → Store → Store} {b : Backend Code Store}
  {d : DebouncerId} {s : SessionId} {w : Nat} {acts q opening : List (Act Code Store)} {code : Code}

/-- A session that an activation began for is current. -/
theorem current?_enter (b : Backend Code Store) (s : SessionId) (held : Bool) :
    (b.enter s held).2.current? = some s := by
  have hstack : (b.enter s held).2.stack = b.stack ++ [s] := (b.rewired_enter s held).stack
  rw [Backend.current?, hstack, List.getLast?_concat]

/-- A window ends: its timer fires when the window is over, its latest call is taken, and the session runs the
code of that call, which begins inside the session. -/
structure Ends (calls : Callbacks Code (Prog Code Store)) (leave : Store → Store → Store)
    (b : Backend Code Store) (d : DebouncerId) (s : SessionId) (w : Nat) (acts opening q : List (Act Code Store))
    (code : Code) : Prop where
  window : b.Window d opening q code
  fired : b.JustFired (.debounced d) q
  due : (b.play q).clock.now = (b.play opening).clock.now + w
  runs : ∃ depth, 0 < depth ∧
    q ++ .takeCall d :: ((calls.running leave depth).run s ((calls.running leave depth).body code)).acts
      (b.play (q ++ [.takeCall d])) <+: acts ∧
    q ++ .takeCall d :: .enter s false :: ((calls.running leave depth).body code).acts
      (b.play (q ++ [.takeCall d, .enter s false])) <+: acts
  inside : (b.play (q ++ [.takeCall d, .enter s false])).current? = some s

/-- While a window is open the clock does not go further than its end. -/
theorem Tracks.now_le {call : Option Code} (h : b.Tracks d s w q call) (regular : (b.play q).Regular)
    (hwindow : b.Window d opening q code) : (b.play q).clock.now ≤ (b.play opening).clock.now + w := by
  obtain ⟨-, hnow⟩ | ⟨t, ht, hdue⟩ := h.timer opening code hwindow
  · exact Nat.le_of_eq hnow
  · have hmem : t ∈ (b.play q).timersOf d := ht ▸ List.mem_singleton_self t
    exact hdue ▸ regular.orderly.current t (mem_timersOf.1 hmem).1

/-- When the timer of a debouncer has fired, its window ends. -/
theorem Tracks.ends {call : Option Code} (h : b.Tracks d s w q call)
    (timely : Timely (Fires calls leave) none b acts) (hq : q <+: acts) (fired : b.JustFired (.debounced d) q)
    (hwindow : b.Window d opening q code) : b.Ends calls leave d s w acts opening q code := by
  obtain rfl := (h.waits_iff code).2 ⟨opening, hwindow⟩
  obtain ⟨inner, ⟨depth, hdepth, rfl⟩, hinner⟩ := timely.work hq fired
  obtain ⟨held, hget⟩ := h.is
  have htaken : ((b.play q).takeCall d).1 = some (s, code) := by simp [takeCall, hget]
  rw [Callbacks.acts_fire_debounced _ htaken] at hinner
  have hbody := (calls.running leave depth).body_prefix_run s ((calls.running leave depth).body code)
    ((b.play q).takeCall d).2
  refine ⟨hwindow, fired, ?_, ⟨depth, hdepth, ?_, ?_⟩, ?_⟩
  · obtain ⟨-, hnow⟩ | ⟨t, ht, -⟩ := h.timer opening code hwindow
    · exact hnow
    · rw [(h.fired fired).2] at ht
      cases ht
  · rw [play_append]
    exact hinner
  · rw [play_append]
    refine .trans ((List.prefix_append_right_inj q).2 ?_) hinner
    exact List.cons_prefix_cons.2 ⟨rfl, hbody⟩
  · rw [List.append_cons, play_append]
    exact current?_enter _ s false

/-! ## windows and calls -/

/-- The call behind `pre` is the latest one of a debouncer, and has not been taken. -/
def Latest (d : DebouncerId) (pre : List (Act Code Store)) (code : Code) (q : List (Act Code Store)) : Prop :=
  ∃ mid, q = pre ++ .callDebouncer d code :: mid ∧ ∀ a ∈ mid, a.concerns d = false

/-- The clock has got to a time: it shows a later one, or has been moved on there. -/
def HasReached (b : Backend Code Store) (time : Nat) (q : List (Act Code Store)) : Prop :=
  time < (b.play q).clock.now ∨ ∃ before target, q = before ++ [.reach target] ∧ time ≤ target

/-- What becomes of the windows and the calls of a debouncer, in a course that begins behind its making. -/
structure RunsLatest (calls : Callbacks Code (Prog Code Store)) (leave : Store → Store → Store)
    (b : Backend Code Store) (d : DebouncerId) (s : SessionId) (w : Nat) (acts : List (Act Code Store)) :
    Prop where
  /-- A call waits just while a window is open, and it is the latest call of the window. -/
  call : ∀ q, q <+: acts → ∃ call, (b.play q).Debounces d s w call ∧
    ∀ code, call = some code ↔ ∃ opening, b.Window d opening q code
  /-- A window is over at a fixed time after the call that opened it, however many calls come meanwhile. The one
  timer of the debouncer is due then, and the clock does not go further while the window is open. -/
  deadline : ∀ q opening code, q <+: acts → b.Window d opening q code →
    (b.play q).clock.now ≤ (b.play opening).clock.now + w ∧
    (¬ b.JustFired (.debounced d) q → ∃ t, (b.play q).timersOf d = [t] ∧ t.due = (b.play opening).clock.now + w)
  /-- A call waits just while one timer of the debouncer does; otherwise none does. When the timer fires the call
  is taken before any code of the program runs. -/
  waits_iff : ∀ q, q <+: acts → ¬ b.JustFired (.debounced d) q →
    ((b.play q).callWaits d = true ↔ ((b.play q).timersOf d).length = 1) ∧
    ((b.play q).callWaits d = false ↔ (b.play q).timersOf d = [])
  /-- When the timer fires, the window ends at once. -/
  fires : ∀ q, q <+: acts → b.JustFired (.debounced d) q →
    ∃ opening code, b.Ends calls leave d s w acts opening q code
  /-- Calls are taken only then. -/
  takes : ∀ q, q ++ [.takeCall d] <+: acts → b.JustFired (.debounced d) q
  /-- A move of the clock that comes to an end has got to its time. -/
  advance : ∀ q depth by_ block ran, ((calls.running leave depth).advance depth by_).Does (b.play q) block ran →
    b.HasReached ((b.play q).clock.now + by_) (q ++ block)
  /-- When the clock has got to the time at which a window is over, the window has ended, and no other call of the
  window is ever run. -/
  ends : ∀ opening first q, opening ++ [.callDebouncer d first] <+: q → q <+: acts →
    (b.play opening).callWaits d = false → b.HasReached ((b.play opening).clock.now + w) q →
      ∃ q' code, q' <+: q ∧ b.Ends calls leave d s w acts opening q' code ∧
        ∀ q'' code', q'' <+: acts → b.Ends calls leave d s w acts opening q'' code' → q'' = q' ∧ code' = code
  /-- What becomes of a call is told by the next act that concerns the debouncer: another call takes its place
  while its window is open, or it is taken and run, this once, or there is none, and it still waits. -/
  fate : ∀ pre code after, acts = pre ++ .callDebouncer d code :: after →
    ∃ opening, b.Window d opening (pre ++ [.callDebouncer d code]) code ∧
      ((∃ code', after.find? (·.concerns d) = some (.callDebouncer d code') ∧ ∃ q, Latest d pre code q ∧
          q ++ [.callDebouncer d code'] <+: acts ∧ b.Window d opening (q ++ [.callDebouncer d code']) code') ∨
        (after.find? (·.concerns d) = some (.takeCall d) ∧
          ∃! q, Latest d pre code q ∧ q <+: acts ∧ b.Ends calls leave d s w acts opening q code) ∨
        (after.find? (·.concerns d) = none ∧ b.Window d opening acts code))

section

variable (timely : Timely (Fires calls leave) none b acts)
  (tracks : ∀ q, q <+: acts → ∃ call, b.Tracks d s w q call)

include timely

theorem takes_of_timely (hq : q ++ [.takeCall d] <+: acts) : b.JustFired (.debounced d) q :=
  (timely.begins q _ (.debounced d) hq rfl).resolve_left fun hnone => by cases hnone.2

/-- A window ends once. -/
theorem ends_unique {q' : List (Act Code Store)} {code' : Code} (hq : q <+: acts) (hq' : q' <+: acts)
    (h : b.Ends calls leave d s w acts opening q code) (h' : b.Ends calls leave d s w acts opening q' code') :
    q' = q ∧ code' = code := by
  -- of two ends the first one would have taken the call
  have hsame : ∀ {q q' code code'}, q' <+: acts → b.Window d opening q code → b.JustFired (.debounced d) q →
      b.Window d opening q' code' → q <+: q' → q' = q := by
    rintro q q' code code' hq' hwindow hfired hwindow' ⟨more, rfl⟩
    cases more with
    | nil => exact List.append_nil q
    | cons a more =>
        have hnext : q ++ [a] <+: q ++ a :: more := ⟨more, by simp⟩
        obtain rfl := timely.takeCall_of_justFired hfired (hnext.trans hq')
        exact absurd hnext (hwindow.not_taken hwindow')
  obtain hle | hle := List.prefix_or_prefix_of_prefix hq hq'
  · obtain rfl := hsame hq' h.window h.fired h'.window hle
    exact ⟨rfl, h.window.code_unique h'.window⟩
  · obtain rfl := hsame hq h'.window h'.fired h.window hle
    exact ⟨rfl, h.window.code_unique h'.window⟩

/-- The clock does not arrive at the end of a window that is open. -/
theorem Tracks.not_hasReached (regular : b.Regular)
    (tracks : ∀ q, q <+: acts → ∃ call, b.Tracks d s w q call) (hq : q <+: acts)
    (hwindow : b.Window d opening q code) : ¬ b.HasReached ((b.play opening).clock.now + w) q := by
  rintro (hlater | ⟨before, target, rfl, htarget⟩)
  · obtain ⟨call, h⟩ := tracks q hq
    exact Nat.not_lt_of_le (h.now_le (regular_play timely regular hq) hwindow) hlater
  · have hbefore : before <+: acts := (List.prefix_append _ _).trans hq
    have hopen := (window_concat_of_unconcerned rfl).1 hwindow
    have horderly := (regular_play timely regular hbefore).orderly
    have hdue := horderly.takeDue?_eq_none_iff.1 (timely.reach before target hq)
    obtain ⟨call, h⟩ := tracks before hbefore
    obtain ⟨hfired, -⟩ | ⟨t, ht, heq⟩ := h.timer opening code hopen
    · cases timely.takeCall_of_justFired hfired hq
    · have hmem : t ∈ (b.play before).timersOf d := ht ▸ List.mem_singleton_self t
      exact Nat.not_lt_of_le (heq ▸ htarget) (hdue t (mem_timersOf.1 hmem).1)

end

/-- Behind a call a window is open, of which it is the latest call. -/
theorem Tracks.exists_window {call : Option Code} (h : b.Tracks d s w q call) (code : Code) :
    ∃ opening, b.Window d opening (q ++ [.callDebouncer d code]) code := by
  cases call with
  | none => exact ⟨q, h.window_opened.2 ⟨rfl, rfl⟩⟩
  | some old =>
      obtain ⟨opening, hold⟩ := (h.waits_iff old).1 rfl
      exact ⟨opening, h.window_replaced.2 ⟨hold, rfl⟩⟩

/-- Behind the opening of a window its call has been taken, or it is still open. -/
theorem window_or_taken {first : Code} (hopening : opening ++ [.callDebouncer d first] <+: q)
    (free : (b.play opening).callWaits d = false) :
    (∃ code, b.Window d opening q code) ∨ ∃ q' code, b.Window d opening q' code ∧ q' ++ [.takeCall d] <+: q := by
  obtain ⟨mid, rfl⟩ := hopening
  by_cases htaken : .takeCall d ∈ mid
  · obtain ⟨before, after, rfl, hfirst⟩ := List.eq_append_cons_of_mem htaken
    exact .inr ⟨opening ++ .callDebouncer d first :: before, _, ⟨free, first, before, rfl, hfirst, rfl⟩, after,
      by simp⟩
  · exact .inl ⟨_, free, first, mid, by simp, htaken, rfl⟩

section

variable (timely : Timely (Fires calls leave) none b acts)
  (tracks : ∀ q, q <+: acts → ∃ call, b.Tracks d s w q call)

include timely tracks

/-- What becomes of a call is told by the next act that concerns the debouncer. -/
theorem fate_of_call {pre after : List (Act Code Store)} (hacts : acts = pre ++ .callDebouncer d code :: after) :
    ∃ opening, b.Window d opening (pre ++ [.callDebouncer d code]) code ∧
      ((∃ code', after.find? (·.concerns d) = some (.callDebouncer d code') ∧ ∃ q, Latest d pre code q ∧
          q ++ [.callDebouncer d code'] <+: acts ∧ b.Window d opening (q ++ [.callDebouncer d code']) code') ∨
        (after.find? (·.concerns d) = some (.takeCall d) ∧
          ∃! q, Latest d pre code q ∧ q <+: acts ∧ b.Ends calls leave d s w acts opening q code) ∨
        (after.find? (·.concerns d) = none ∧ b.Window d opening acts code)) := by
  obtain ⟨_, hpre⟩ := tracks pre (hacts ▸ List.prefix_append _ _)
  obtain ⟨opening, hwindow⟩ := hpre.exists_window code
  refine ⟨opening, hwindow, ?_⟩
  have hlater : ∀ mid : List (Act Code Store), (∀ a ∈ mid, a.concerns d = false) →
      b.Window d opening (pre ++ .callDebouncer d code :: mid) code := fun mid hmid => by
    rw [List.append_cons]
    exact hwindow.later hmid
  cases hfind : after.find? (·.concerns d) with
  | none =>
      refine .inr (.inr ⟨rfl, hacts ▸ hlater after fun a ha => ?_⟩)
      simpa using List.find?_eq_none.1 hfind a ha
  | some a =>
      obtain ⟨hconcerns, mid, rest, rfl, hmid⟩ := List.find?_eq_some_iff_append.1 hfind
      have hquiet : ∀ a ∈ mid, a.concerns d = false := fun a ha => by simpa using hmid a ha
      have hq : pre ++ .callDebouncer d code :: mid ++ [a] <+: acts := ⟨rest, by rw [hacts]; simp⟩
      have hbefore := (List.prefix_append _ _).trans hq
      obtain ⟨call, h⟩ := tracks _ hbefore
      cases a with
      | callDebouncer d' code' =>
          obtain rfl : d' = d := by simpa [Act.concerns] using hconcerns
          obtain rfl := (h.waits_iff code).2 ⟨opening, hlater mid hquiet⟩
          exact .inl ⟨code', rfl, _, ⟨mid, rfl, hquiet⟩, hq, h.window_replaced.2 ⟨hlater mid hquiet, rfl⟩⟩
      | takeCall d' =>
          obtain rfl : d' = d := by simpa [Act.concerns] using hconcerns
          have hends := h.ends timely hbefore (takes_of_timely timely hq) (hlater mid hquiet)
          refine .inr (.inl ⟨rfl, _, ⟨⟨mid, rfl, hquiet⟩, hbefore, hends⟩, fun q' hq' => ?_⟩)
          exact (ends_unique timely hbefore hq'.2.1 hends hq'.2.2).1
      | _ => cases hconcerns

/-- A debouncer whose state fits the calls runs the latest call of each window. -/
theorem runsLatest_of_tracks (regular : b.Regular) : b.RunsLatest calls leave d s w acts where
  call q hq := by
    obtain ⟨call, h⟩ := tracks q hq
    exact ⟨call, h.is, h.waits_iff⟩
  deadline q opening code hq hwindow := by
    obtain ⟨call, h⟩ := tracks q hq
    refine ⟨h.now_le (regular_play timely regular hq) hwindow, fun hfired => ?_⟩
    exact (h.timer opening code hwindow).resolve_left fun hnow => hfired hnow.1
  waits_iff q hq hfired := by
    obtain ⟨call, h⟩ := tracks q hq
    rw [h.is.callWaits]
    cases call with
    | none => simp [h.quiet rfl]
    | some code =>
        obtain ⟨opening, hwindow⟩ := (h.waits_iff code).1 rfl
        obtain ⟨t, ht, -⟩ := (h.timer opening code hwindow).resolve_left fun hnow => hfired hnow.1
        simp [ht]
  fires q hq hfired := by
    obtain ⟨call, h⟩ := tracks q hq
    obtain ⟨code, rfl⟩ := Option.ne_none_iff_exists'.1 (h.fired hfired).1
    obtain ⟨opening, hwindow⟩ := (h.waits_iff code).1 rfl
    exact ⟨opening, code, h.ends timely hq hfired hwindow⟩
  takes q hq := takes_of_timely timely hq
  advance q depth by_ block ran hdoes := by
    obtain ⟨before, rfl⟩ := Callbacks.reach_of_advance _ hdoes
    exact .inr ⟨q ++ before, _, by simp, Nat.le_refl _⟩
  ends opening first q hopening hq hfree hreached := by
    obtain ⟨code, hwindow⟩ | ⟨q', code, hwindow, htaken⟩ := window_or_taken hopening hfree
    · exact absurd hreached (Tracks.not_hasReached timely regular tracks hq hwindow)
    · have hq' : q' <+: acts := (List.prefix_append _ _).trans (htaken.trans hq)
      obtain ⟨call, h⟩ := tracks q' hq'
      have hends := h.ends timely hq' (takes_of_timely timely (htaken.trans hq)) hwindow
      refine ⟨q', code, (List.prefix_append _ _).trans htaken, hends, fun q'' code' hq'' hends' => ?_⟩
      exact ends_unique timely hq' hq'' hends hends'
  fate pre code after hacts := fate_of_call timely tracks hacts

end

end Backend

/-- A debouncer runs the latest call of each window, whatever the program does, as long as it takes away no
timer of the debouncer. -/
theorem debouncer_runs_latest_call (calls : Callbacks Code (Prog Code Store)) (leave : Store → Store → Store)
    (fuel : Nat) (p : Prog Code Store α) (store : Store) {made acts : List (Act Code Store)} {s : SessionId}
    {w : Nat} (course : p.course calls leave fuel store = made ++ .newDebouncer s w :: acts) :
    let d := (((Backend.init store).play made).newDebouncer s w).1
    let b := (((Backend.init store).play made).newDebouncer s w).2
    (∀ q id, q ++ [.cancel id] <+: acts → ∀ t ∈ (b.play q).timersOf d, t.id ≠ id) →
      b.RunsLatest calls leave d s w acts := by
  intro d b spared
  have htimely : Timely (Fires calls leave) none (Backend.init store) (made ++ .newDebouncer s w :: acts) :=
    course ▸ timely_execute calls leave fuel p (Backend.init store)
  have hregular := Backend.regular_play htimely (Backend.regular_init store) (List.prefix_append _ _)
  have hb : b = (Backend.init store).play (made ++ [.newDebouncer s w]) := by simp [b, Act.apply]
  have hbehind : Timely (Fires calls leave) none b acts := hb ▸ htimely.behind rfl
  have hregular' : b.Regular := hregular.newDebouncer s w
  exact Backend.runsLatest_of_tracks hbehind (fun q hq => Backend.tracks_play hbehind hregular'
    (Backend.tracks_newDebouncer hregular s w) spared hq) hregular'

namespace Sample

/-- A positive number calls the debouncer with the number below it. -/
def debouncingCalls : Callbacks Nat (Prog Nat Unit) where
  view _ := view ⟨"app", "", "View"⟩ ""
  init _ _ := pure (.ok ())
  adjust _ _ changes := pure (.ok changes)
  request _ _ _ := pure (.ok ())
  listener _ _ _ := pure ()
  task _ := pure ()
  body
    | 0 => pure (.ok .null)
    | n + 1 => (Prog.request (.callDebouncer 0 n)).bind fun _ => pure (.ok .null)

/-- Calls a debouncer twice in a window, and moves the clock to the end of the window. -/
def debouncing : Prog Nat Unit Bool := do
  let s ← Prog.request (.openSession {} {})
  let d ← Prog.request (.newDebouncer s 10)
  Prog.request (.callDebouncer d 7)
  let _ ← Prog.request (.advance 6)
  Prog.request (.callDebouncer d 1)
  let _ ← Prog.request (.advance 4)
  Prog.look (·.callWaits d)

/-- What happens to the debouncer: the second call is run, and calls the debouncer again. -/
def debounced : List (Act Nat Unit) :=
  [.callDebouncer 0 7, .takeDue 6, .reach 6, .callDebouncer 0 1, .takeDue 10, .takeCall 0, .enter 1 false,
    .callDebouncer 0 0, .keep (), .leave 0, .takeDue 10, .reach 10]

theorem course_debouncing : debouncing.course debouncingCalls (fun _ after => after) 3 () =
    [.openSession {} {}] ++ .newDebouncer 1 10 :: debounced := rfl

-- the call that came from the one that was run waits for the end of a window of its own
example : (debouncing.execute debouncingCalls (fun _ after => after) 3).ending (.init ()) = .value true := rfl

end Sample

theorem debouncing_runs_latest :
    (((Backend.init ()).play [.openSession {} {}]).newDebouncer 1 10).2.RunsLatest Sample.debouncingCalls
      (fun _ after => after) 0 1 10 Sample.debounced := by
  refine debouncer_runs_latest_call Sample.debouncingCalls _ 3 Sample.debouncing ()
    Sample.course_debouncing fun q id hq => ?_
  exact absurd (hq.subset List.mem_concat_self) (by simp [Sample.debounced])

end ViewSync
