import ViewSync.Proofs.Backend.Ticking

/-!
# ViewSync.Proofs.Backend.Periods

The times at which a periodic task ticks, in the course of any program. After a start or a reset it ticks when each
period is over, as long as it is neither started anew nor cleared and its session is open, whatever the ticks
themselves do with it; a cleared task is silent, and so is one whose timer fired for a closed session.

* `Backend.Ticks` — a tick: when it comes, and what the session runs then;
* `Backend.Silent` — no timer waits and no tick comes until the next start;
* `Backend.OnSchedule`, `periodic_ticks_on_schedule` — when a periodic task ticks, and when it does not.
-/

namespace ViewSync

variable {Code Store α : Type}

/-- What a session runs at a tick, at some depth of nesting. -/
def Callbacks.tick (calls : Callbacks Code (Prog Code Store)) (leave : Store → Store → Store) (depth : Nat)
    (s : SessionId) (code : Code) : Run Code Store (Option Json) :=
  (calls.running leave depth).run s ((calls.running leave depth).body code)

namespace Backend

/-- Behind `q` the tick of a task is taken, and at some depth of nesting the session runs its code, which begins inside
the session. When that comes to an end, the task is armed anew. It does come to an end, whether the code fails or not,
unless it calls too deep, or someone listens to the component in which the session shows failures. -/
structure Works (calls : Callbacks Code (Prog Code Store)) (leave : Store → Store → Store)
    (b : Backend Code Store) (p : PeriodicId) (s : SessionId) (code : Code) (acts q : List (Act Code Store))
    (depth : Nat) : Prop where
  positive : 0 < depth
  run : q ++ .takeTick p :: (calls.tick leave depth s code).acts (b.play (q ++ [.takeTick p])) <+: acts
  body : q ++ .takeTick p :: .enter s false :: ((calls.running leave depth).body code).acts
    (b.play (q ++ [.takeTick p, .enter s false])) <+: acts
  inside : (b.play (q ++ [.takeTick p, .enter s false])).current? = some s
  rearms : (calls.tick leave depth s code).Returns (b.play (q ++ [.takeTick p])) →
    q ++ .takeTick p :: ((calls.tick leave depth s code).acts (b.play (q ++ [.takeTick p])) ++ [.rearm p]) <+: acts
  ends : ((calls.running leave depth).body code).ending (b.play (q ++ [.takeTick p, .enter s false])) ≠ .exhausted →
    (((calls.running leave depth).body code).last (b.play (q ++ [.takeTick p, .enter s false]))).Unheard s →
      (calls.tick leave depth s code).Returns (b.play (q ++ [.takeTick p]))

/-- Behind `q` a task ticks that was started behind `opening` and has ticked `n` times since then. Its session is open,
and its timer fired at the end of a period. -/
structure Ticks (calls : Callbacks Code (Prog Code Store)) (leave : Store → Store → Store)
    (b : Backend Code Store) (p : PeriodicId) (s : SessionId) (w : Nat) (code : Code)
    (acts opening q : List (Act Code Store)) (n : Nat) : Prop where
  started : Started p opening q n
  unclosed : ((b.play q).session s).isClosed = false
  fired : b.JustFired (.tick p) q
  now : (b.play q).clock.now = (b.play opening).clock.now + (n + 1) * w
  works : ∃ depth, b.Works calls leave p s code acts q depth

/-- The tick behind `q` does not come to an end. -/
def CutOff (calls : Callbacks Code (Prog Code Store)) (leave : Store → Store → Store) (b : Backend Code Store)
    (p : PeriodicId) (s : SessionId) (code : Code) (acts q : List (Act Code Store)) : Prop :=
  ∀ depth, b.Works calls leave p s code acts q depth →
    ¬ (calls.tick leave depth s code).Returns (b.play (q ++ [.takeTick p]))

/-- From some point on no timer of a task waits, and no tick is taken, until the task is started. -/
def Silent (b : Backend Code Store) (p : PeriodicId) (acts q : List (Act Code Store)) : Prop :=
  ∀ mid, q ++ mid <+: acts → .startPeriodic p ∉ mid →
    (b.play (q ++ mid)).ticksOf p = [] ∧ ¬ q ++ mid ++ [.takeTick p] <+: acts

/-- When a periodic task ticks, and when it does not, in a course that begins behind its making. -/
structure OnSchedule (calls : Callbacks Code (Prog Code Store)) (leave : Store → Store → Store)
    (b : Backend Code Store) (p : PeriodicId) (s : SessionId) (w : Nat) (code : Code)
    (acts : List (Act Code Store)) : Prop where
  /-- At no time does more than one timer of the task wait. -/
  one : ∀ q, q <+: acts → ((b.play q).ticksOf p).length ≤ 1
  /-- While a task is started and its session is open, its timer waits, and is due when the next period is over; or
  the task ticks just now; or its last tick is at work, while the clock stands still, or was cut off. -/
  due : ∀ opening q n, q <+: acts → Started p opening q n → ((b.play q).session s).isClosed = false →
    (∃ t, (b.play q).ticksOf p = [t] ∧ t.due = (b.play opening).clock.now + (n + 1) * w) ∨
      b.Ticks calls leave p s w code acts opening q n ∨
      ∃ start m, n = m + 1 ∧ AtWork p start q ∧ b.Ticks calls leave p s w code acts opening start m ∧
        ((b.play q).clock.now = (b.play start).clock.now ∨ b.CutOff calls leave p s code acts start)
  /-- A tick is taken only at the end of a period, or when the session is closed. -/
  takes : ∀ q, q ++ [.takeTick p] <+: acts → ((b.play q).session s).isClosed = true ∨
    ∃ opening n, b.Ticks calls leave p s w code acts opening q n
  /-- When the clock has got to the end of a period and the task is still started and its session open, the tick has
  come, unless the last one was cut off. -/
  reached : ∀ opening q n k, q <+: acts → Started p opening q n → ((b.play q).session s).isClosed = false →
    b.HasReached ((b.play opening).clock.now + k * w) q → k ≤ n ∨
      ∃ start m, n = m + 1 ∧ AtWork p start q ∧ b.Ticks calls leave p s w code acts opening start m ∧
        b.CutOff calls leave p s code acts start
  /-- A move of the clock that comes to an end has got to its time. -/
  advance : ∀ q depth by_ block ran, ((calls.running leave depth).advance depth by_).Does (b.play q) block ran →
    b.HasReached ((b.play q).clock.now + by_) (q ++ block)
  /-- Before it is started a task is silent. -/
  unstarted : b.Silent p acts []
  /-- Behind a clear a task is silent. -/
  cleared : ∀ q, q ++ [.clearPeriodic p] <+: acts → b.Silent p acts (q ++ [.clearPeriodic p])
  /-- A timer that fires for a closed session runs nothing and sets no timer, and from then on the task is silent. -/
  closed : ∀ q, q <+: acts → b.JustFired (.tick p) q → ((b.play q).session s).isClosed = true →
    q ++ [.takeTick p] <+: acts ∧ (∀ inner, Fires calls leave (.tick p) (b.play q) inner → inner = [.takeTick p]) ∧
      b.Silent p acts (q ++ [.takeTick p])

variable {calls : Callbacks Code (Prog Code Store)} {leave : Store → Store → Store} {b : Backend Code Store}
  {p : PeriodicId} {s : SessionId} {w : Nat} {code : Code} {acts opening start q : List (Act Code Store)} {n : Nat}

/-- A tick that is taken is one of an open session. -/
theorem isClosed_of_takeTick (taken : (b.takeTick p).1 = some (s, code)) : (b.session s).isClosed = false := by
  unfold takeTick at taken
  split at taken
  · cases taken
  · split at taken
    · split at taken
      · cases taken
      · next h =>
        cases taken
        simpa using (not_or.1 h).2
    · cases taken

section

variable (h : Unhindered calls leave b p s acts)

include h

/-- A tick that is taken is run by the session. -/
theorem works_of_taken (hq : q <+: acts) (fired : b.JustFired (.tick p) q)
    (taken : ((b.play q).takeTick p).1 = some (s, code)) : ∃ depth, b.Works calls leave p s code acts q depth := by
  obtain ⟨inner, ⟨depth, hdepth, rfl⟩, hinner⟩ := h.timely.work hq fired
  have htick : ((b.play q).takeTick p).2 = b.play (q ++ [.takeTick p]) := by simp [Act.apply]
  have henter : ((b.play (q ++ [.takeTick p])).enter s false).2 = b.play (q ++ [.takeTick p, .enter s false]) := by
    simp [Act.apply]
  rw [Callbacks.acts_fire_tick _ taken, htick] at hinner
  have hbody := (calls.running leave depth).body_prefix_run s ((calls.running leave depth).body code)
    (b.play (q ++ [.takeTick p]))
  have hrun : q ++ .takeTick p :: (calls.tick leave depth s code).acts (b.play (q ++ [.takeTick p])) <+: acts :=
    .trans ((List.prefix_append_right_inj q).2 (List.cons_prefix_cons.2 ⟨rfl, List.prefix_append _ _⟩)) hinner
  have hinside : q ++ .takeTick p :: .enter s false :: ((calls.running leave depth).body code).acts
      (b.play (q ++ [.takeTick p, .enter s false])) <+: acts := by
    refine .trans ((List.prefix_append_right_inj q).2 (List.cons_prefix_cons.2 ⟨rfl, ?_⟩)) hrun
    rw [← henter]
    exact hbody
  refine ⟨depth, hdepth, hrun, hinside, ?_, ?_, fun bounded unheard => ?_⟩
  · rw [← henter]
    exact current?_enter _ s false
  · rintro ⟨v, hv⟩
    have hending : ((calls.running leave depth).run s ((calls.running leave depth).body code)).ending
        (b.play (q ++ [.takeTick p])) = .value v := hv
    rw [hending] at hinner
    exact hinner
  · refine Callbacks.returns_run _ (henter ▸ bounded) ?_ (henter ▸ unheard)
    rw [henter, Run.finish_eq_play, ← play_append]
    exact fun c k => h.builtIn _ c k (by simpa using hinside)

/-- A tick that is taken at the end of a period is one of the task. -/
theorem Ticks.of_taken (hq : q <+: acts) (started : Started p opening q n) (fired : b.JustFired (.tick p) q)
    (now : (b.play q).clock.now = (b.play opening).clock.now + (n + 1) * w)
    (taken : ((b.play q).takeTick p).1 = some (s, code)) : b.Ticks calls leave p s w code acts opening q n :=
  ⟨started, isClosed_of_takeTick taken, fired, now, works_of_taken h hq fired taken⟩

/-- While a tick is at work the clock stands still, unless the tick is cut off. -/
theorem still_of_atWork (hq : q <+: acts) (fired : b.JustFired (.tick p) start)
    (taken : ((b.play start).takeTick p).1 = some (s, code)) (work : AtWork p start q) :
    (∃ mid, q = start ++ .takeTick p :: mid ∧ ∀ a ∈ Act.takeTick p :: mid, a.movesClock = false) ∨
      b.CutOff calls leave p s code acts start := by
  by_cases hends : ∃ depth, b.Works calls leave p s code acts start depth ∧
      (calls.tick leave depth s code).Returns (b.play (start ++ [.takeTick p]))
  · obtain ⟨depth, hworks, hreturns⟩ := hends
    refine .inl ?_
    have hinner := hworks.rearms hreturns
    obtain ⟨mid, rfl, hunpaced⟩ := work
    have hfires : Fires calls leave (.tick p) (b.play start) (.takeTick p ::
        ((calls.tick leave depth s code).acts (b.play (start ++ [.takeTick p])) ++ [.rearm p])) := by
      refine ⟨depth, hworks.positive, ?_⟩
      have htick : ((b.play start).takeTick p).2 = b.play (start ++ [.takeTick p]) := by simp [Act.apply]
      obtain ⟨v, hv⟩ := hreturns
      rw [Callbacks.acts_fire_tick _ taken, htick]
      show _ = _ :: (_ ++ ((calls.tick leave depth s code).ending _).rearming p)
      rw [hv]
      rfl
    have hstill := h.still start _ fired hfires hinner
    refine ⟨mid, rfl, fun a ha => hstill a ?_⟩
    obtain hle | hge := List.prefix_or_prefix_of_prefix hq hinner
    · exact ((List.prefix_append_right_inj start).1 hle).subset ha
    · -- the task would have been armed anew already
      have hbeyond := (List.prefix_append_right_inj start).1 hge
      have hmem : Act.rearm p ∈ mid :=
        (List.cons_prefix_cons.1 hbeyond).2.subset (List.mem_append_right _ List.mem_cons_self)
      have hpaced := hunpaced _ hmem
      simp [Act.paces] at hpaced
  · exact .inr fun depth hworks hreturns => hends ⟨depth, hworks, hreturns⟩

/-- A task that rests is silent. -/
theorem Rests.silent (rests : b.Rests p s w code q) : b.Silent p acts q := by
  have hrests : ∀ mid, q ++ mid <+: acts → .startPeriodic p ∉ mid → b.Rests p s w code (q ++ mid) := by
    intro mid hmid hstart
    induction mid using List.reverseRecOn with
    | nil => simpa using rests
    | append_singleton mid a ih =>
        rw [← List.append_assoc] at hmid ⊢
        rw [List.mem_append, not_or] at hstart
        have hbefore := ih ((List.prefix_append _ _).trans hmid) hstart.1
        exact hbefore.concat h hmid fun heq => hstart.2 (heq ▸ List.mem_cons_self)
  intro mid hmid hstart
  have hbehind := hrests mid hmid hstart
  exact ⟨hbehind.quiet, fun htick => hbehind.unfired (h.justFired_of_takeTick htick)⟩

omit h in
/-- A task that was cleared just now rests, wherever it was. -/
theorem Stage.rests_of_clear (stage : b.Stage p s w code (q ++ [.clearPeriodic p])) :
    b.Rests p s w code (q ++ [.clearPeriodic p]) := by
  cases stage with
  | rests rests => exact rests
  | waits started | fired started => exact absurd started Started.not_clear
  | works started _ _ _ work => exact absurd (work.started started) Started.not_clear

omit h in
theorem Stage.length_ticksOf_le (stage : b.Stage p s w code q) : ((b.play q).ticksOf p).length ≤ 1 := by
  cases stage with
  | rests rests => simp [rests.quiet]
  | waits _ _ timers => simp [timers]
  | fired _ _ quiet | works _ _ quiet => simp [quiet]

/-- A task whose timer fired ticks, if the session is open. -/
theorem Stage.ticks (stage : b.Stage p s w code q) (hq : q <+: acts) (fired : b.JustFired (.tick p) q)
    (unclosed : ((b.play q).session s).isClosed = false) :
    ∃ opening n, b.Ticks calls leave p s w code acts opening q n := by
  cases stage with
  | rests rests => exact absurd fired rests.unfired
  | waits _ _ _ _ unfired | works _ _ _ unfired => exact absurd fired unfired
  | @fired opening n timer started is quiet now fired =>
      exact ⟨opening, n, .of_taken h hq started fired now (is.takeTick_of_unclosed unclosed)⟩

theorem Stage.due (stage : b.Stage p s w code q) (hq : q <+: acts) (started : Started p opening q n)
    (unclosed : ((b.play q).session s).isClosed = false) :
    (∃ t, (b.play q).ticksOf p = [t] ∧ t.due = (b.play opening).clock.now + (n + 1) * w) ∨
      b.Ticks calls leave p s w code acts opening q n ∨
      ∃ start m, n = m + 1 ∧ AtWork p start q ∧ b.Ticks calls leave p s w code acts opening start m ∧
        ((b.play q).clock.now = (b.play start).clock.now ∨ b.CutOff calls leave p s code acts start) := by
  cases stage with
  | rests rests =>
      rw [rests.ended opening n started] at unclosed
      cases unclosed
  | waits started' is timers due =>
      obtain ⟨rfl, rfl⟩ := started.unique started'
      exact .inl ⟨_, timers, due⟩
  | fired started' is quiet now fired =>
      obtain ⟨rfl, rfl⟩ := started.unique started'
      exact .inr (.inl (.of_taken h hq started fired now (is.takeTick_of_unclosed unclosed)))
  | @works opening' start m started' is quiet unfired work fired now taken =>
      obtain ⟨rfl, rfl⟩ := started.unique (work.started started')
      refine .inr (.inr ⟨start, m, rfl, work, .of_taken h (work.start_prefix.trans hq) started' fired now taken, ?_⟩)
      refine (still_of_atWork h hq fired taken work).imp_left ?_
      rintro ⟨mid, rfl, hstill⟩
      rw [play_append]
      exact now_play hstill

theorem Stage.reached (stage : b.Stage p s w code q) (hq : q <+: acts) (started : Started p opening q n)
    (unclosed : ((b.play q).session s).isClosed = false) {k : Nat}
    (reached : b.HasReached ((b.play opening).clock.now + k * w) q) : k ≤ n ∨
      ∃ start m, n = m + 1 ∧ AtWork p start q ∧ b.Ticks calls leave p s w code acts opening start m ∧
        b.CutOff calls leave p s code acts start := by
  have hperiods : ∀ {r n}, r + k * w < r + (n + 1) * w → k ≤ n := fun hlt =>
    Nat.le_of_lt_succ (Nat.lt_of_mul_lt_mul_right (Nat.lt_of_add_lt_add_left hlt))
  cases stage with
  | rests rests =>
      rw [rests.ended opening n started] at unclosed
      cases unclosed
  | @waits _ _ t started' is timers due =>
      obtain ⟨rfl, rfl⟩ := started.unique started'
      have hpending : t ∈ (b.play q).clock.pending := (mem_ticksOf.1 (timers ▸ List.mem_singleton_self t)).1
      refine .inl (hperiods (Nat.lt_of_lt_of_eq ?_ due))
      obtain hlater | ⟨before, target, rfl, htarget⟩ := reached
      · exact Nat.lt_of_lt_of_le hlater ((regular_play h.timely h.regular hq).orderly.current t hpending)
      · have hbefore := (List.prefix_append _ _).trans hq
        have hnone := h.timely.reach before target hq
        rw [(regular_play h.timely h.regular hbefore).orderly.takeDue?_eq_none_iff] at hnone
        rw [play_append] at hpending
        exact Nat.lt_of_le_of_lt htarget (hnone t hpending)
  | fired started' is quiet now fired =>
      obtain ⟨rfl, rfl⟩ := started.unique started'
      obtain hlater | ⟨before, target, rfl, -⟩ := reached
      · exact .inl (hperiods (now ▸ hlater))
      · exact absurd fired (not_justFired_concat_of_none rfl)
  | @works opening' start m started' is quiet unfired work fired now taken =>
      obtain ⟨rfl, rfl⟩ := started.unique (work.started started')
      obtain ⟨mid, rfl, hstill⟩ | hcut := still_of_atWork h hq fired taken work
      · obtain hlater | ⟨before, target, heq, -⟩ := reached
        · rw [play_append, now_play hstill, now] at hlater
          exact .inl (Nat.le_succ_of_le (hperiods hlater))
        · have hlast := congrArg List.getLast? heq
          rw [List.getLast?_append_cons, List.getLast?_concat] at hlast
          cases hstill _ (List.mem_of_getLast? hlast)
      · have hticks := Ticks.of_taken h (work.start_prefix.trans hq) started' fired now taken
        exact .inr ⟨start, m, rfl, work, hticks, hcut⟩

/-- When the timer of a task fires for a closed session, nothing more happens with the task. -/
theorem Stage.closed (stage : b.Stage p s w code q) (hq : q <+: acts) (fired : b.JustFired (.tick p) q)
    (closed : ((b.play q).session s).isClosed = true) :
    q ++ [.takeTick p] <+: acts ∧ (∀ inner, Fires calls leave (.tick p) (b.play q) inner → inner = [.takeTick p]) ∧
      b.Silent p acts (q ++ [.takeTick p]) := by
  cases stage with
  | rests rests => exact absurd fired rests.unfired
  | waits _ _ _ _ unfired | works _ _ _ unfired => exact absurd fired unfired
  | fired _ is quiet now _ =>
      have huntaken : ((b.play q).takeTick p).1 = none := is.takeTick_of_closed closed
      have honly : ∀ inner, Fires calls leave (.tick p) (b.play q) inner → inner = [.takeTick p] := by
        rintro inner ⟨depth, -, rfl⟩
        exact Callbacks.acts_fire_tick_of_none _ huntaken
      obtain ⟨inner, hfires, hinner⟩ := h.timely.work hq fired
      rw [honly inner hfires] at hinner
      exact ⟨hinner, honly, (Rests.of_taken h hinner is quiet fired closed).silent h⟩

/-- A task that is left to itself ticks on schedule. -/
theorem onSchedule_of_unhindered (rests : b.Rests p s w code []) : b.OnSchedule calls leave p s w code acts where
  one q hq := (stage_play h rests hq).length_ticksOf_le
  due opening q n hq started unclosed := (stage_play h rests hq).due h hq started unclosed
  takes q hq := by
    have hbefore := (List.prefix_append _ _).trans hq
    cases hclosed : ((b.play q).session s).isClosed with
    | true => exact .inl rfl
    | false => exact .inr ((stage_play h rests hbefore).ticks h hbefore (h.justFired_of_takeTick hq) hclosed)
  reached opening q n k hq started unclosed reached := (stage_play h rests hq).reached h hq started unclosed reached
  advance q depth by_ block ran hdoes := by
    obtain ⟨before, rfl⟩ := Callbacks.reach_of_advance _ hdoes
    exact .inr ⟨q ++ before, _, by simp, Nat.le_refl _⟩
  unstarted := rests.silent h
  cleared q hq := ((stage_play h rests hq).rests_of_clear).silent h
  closed q hq fired closed := (stage_play h rests hq).closed h hq fired closed

end

/-- A periodic task that was just made rests. -/
theorem rests_newPeriodic (owned : b.Owned) (s : SessionId) (w : Nat) (code : Code) :
    (b.newPeriodic s w code).2.Rests (b.newPeriodic s w code).1 s w code [] where
  idle := ⟨false, Table.get?_insert_self, .inr fun _ hlast => absurd hlast not_lastOf_nil⟩
  quiet := by
    refine List.eq_nil_iff_forall_not_mem.2 fun t ht => ?_
    obtain ⟨hpending, hjob⟩ := mem_ticksOf.1 ht
    exact Nat.lt_irrefl _ (owned.numbered _ (owned.known t hpending _ hjob))
  unfired := not_justFired_nil
  ended _ _ hstarted := absurd hstarted.1 not_lastOf_nil

end Backend

/-- A periodic task ticks on schedule, whatever the program does, as long as it takes away no timer of the task, does
not give up its handle, and does not move the clock while the task is at work. -/
theorem periodic_ticks_on_schedule (calls : Callbacks Code (Prog Code Store)) (leave : Store → Store → Store)
    (fuel : Nat) (program : Prog Code Store α) (store : Store) {made acts : List (Act Code Store)} {s : SessionId}
    {w : Nat} {code : Code} (course : program.course calls leave fuel store = made ++ .newPeriodic s w code :: acts)
    (known : ((Backend.init store).play made).hasSession s = true) :
    let p := (((Backend.init store).play made).newPeriodic s w code).1
    let b := (((Backend.init store).play made).newPeriodic s w code).2
    (∀ q id, q ++ [.cancel id] <+: acts → ∀ t ∈ (b.play q).ticksOf p, t.id ≠ id) → .releasePeriodic p ∉ acts →
      (∀ q inner, b.JustFired (.tick p) q → Fires calls leave (.tick p) (b.play q) inner → q ++ inner <+: acts →
        ∀ a ∈ inner, a.movesClock = false) → b.OnSchedule calls leave p s w code acts := by
  intro p b spared kept still
  have htimely : Timely (Fires calls leave) none (Backend.init store) (made ++ .newPeriodic s w code :: acts) :=
    course ▸ timely_execute calls leave fuel program (Backend.init store)
  have hmade : made <+: made ++ .newPeriodic s w code :: acts := List.prefix_append _ _
  have hregular := Backend.regular_play htimely (Backend.regular_init store) hmade
  have howned := Backend.owned_play htimely (Backend.regular_init store) (Backend.owned_init store) hmade
  have hb : b = (Backend.init store).play (made ++ [.newPeriodic s w code]) := by simp [b, Act.apply]
  refine Backend.onSchedule_of_unhindered ⟨hb ▸ htimely.behind rfl, hregular.newPeriodic s w code,
    howned.newPeriodic s w code, hb ▸ Backend.coherent_play store _, ?_, ?_, spared, kept, still, ?_⟩
    (Backend.rests_newPeriodic howned s w code)
  · rw [hb, Backend.play_append]
    exact Backend.hasSession_play known _
  · exact fun q hq => Backend.tickEnds_of_rearm course rfl hq
  · intro q c k hq hshown hc
    rw [hb, ← Backend.play_append] at hshown hc
    have hpoint : made ++ [.newPeriodic s w code] ++ q <+: program.course calls leave fuel store := by
      rw [course, List.append_cons made _ acts, List.prefix_append_right_inj]
      exact hq
    obtain ⟨k', text, hc', hkind⟩ := Backend.builtIn_play calls leave fuel program store hpoint
      (Option.filter_eq_some_iff.1 hshown).1
    obtain rfl : k' = k := Option.some.inj (hc'.symm.trans hc)
    exact ⟨text, hkind⟩

namespace Sample

/-- At its first tick a task starts anew, and at the second one it fails. -/
def pacingCalls : Callbacks Nat (Prog Nat Nat) where
  view _ := view ⟨"app", "", "View"⟩ ""
  init _ _ := pure (.ok ())
  adjust _ _ changes := pure (.ok changes)
  request _ _ _ := pure (.ok ())
  listener _ _ _ := pure ()
  task _ := pure ()
  body p := do
    let count ← Prog.stored id
    Prog.request (.keep (count + 1))
    match count with
    | 0 =>
      Prog.request (.startPeriodic p)
      pure (.ok .null)
    | 1 => pure (.error (.other "App" "late"))
    | _ => pure (.ok .null)

/-- Starts a task, lets it tick three times, clears it, and starts it again before its session is closed. -/
def pacing : Prog Nat Nat Nat := do
  let s ← Prog.request (.openSession { renderDiagnostics := false } {})
  let p ← Prog.request (.newPeriodic s 10 0)
  Prog.request (.startPeriodic p)
  let _ ← Prog.request (.advance 35)
  Prog.request (.clearPeriodic p)
  let _ ← Prog.request (.advance 20)
  Prog.request (.startPeriodic p)
  Prog.request (.close s)
  let _ ← Prog.request (.advance 20)
  Prog.look (·.clock.now)

/-- What happens to the task. -/
def paced : List (Act Nat Nat) :=
  [.startPeriodic 0,
    .takeDue 35, .takeTick 0, .enter 1 false, .keep 1, .startPeriodic 0, .keep 1, .leave 0, .rearm 0,
    .takeDue 35, .takeTick 0, .enter 1 false, .keep 2, .keep 2, .leave 1, .rearm 0,
    .takeDue 35, .takeTick 0, .enter 1 false, .keep 3, .keep 3, .leave 2, .rearm 0, .takeDue 35, .reach 35,
    .clearPeriodic 0, .takeDue 55, .reach 55,
    .startPeriodic 0, .close 1, .takeDue 75, .takeTick 0, .takeDue 75, .reach 75]

theorem course_pacing : pacing.course pacingCalls (fun _ after => after) 5 0 =
    [.openSession { renderDiagnostics := false } {}] ++ .newPeriodic 1 10 0 :: paced := rfl

-- the tick for which the session is closed does not count
example : (pacing.execute pacingCalls (fun _ after => after) 5).ending (.init 0) = .value 75 ∧
    ((pacing.execute pacingCalls (fun _ after => after) 5).last (.init 0)).store = 3 := ⟨rfl, rfl⟩

/-- The code of the task moves no clock. -/
theorem pacingCalls_unmoving : pacingCalls.Unmoving where
  init _ _ := trivial
  adjust _ _ _ := trivial
  request _ _ _ := trivial
  listener _ _ _ := trivial
  task _ := trivial
  body p := by
    refine ⟨rfl, fun b => ⟨rfl, fun _ => ?_⟩⟩
    dsimp only
    generalize id b.store = count
    match count with
    | 0 => exact ⟨rfl, fun _ => trivial⟩
    | 1 => trivial
    | n + 2 => trivial

end Sample

theorem pacing_on_schedule :
    (((Backend.init 0).play [.openSession { renderDiagnostics := false } {}]).newPeriodic 1 10 0).2.OnSchedule
      Sample.pacingCalls (fun _ after => after) 0 1 10 0 Sample.paced := by
  refine periodic_ticks_on_schedule Sample.pacingCalls _ 5 Sample.pacing 0 Sample.course_pacing rfl
    (fun q id hq => ?_) (by simp [Sample.paced]) fun q inner _ hfires _ => ?_
  · exact absurd (hq.subset List.mem_concat_self) (by simp [Sample.paced])
  · obtain ⟨depth, -, rfl⟩ := hfires
    exact Sample.pacingCalls_unmoving.fire _ depth _ _

end ViewSync
