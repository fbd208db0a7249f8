import ViewSync.Proofs.Backend.Timekeeping

/-!
# ViewSync.Proofs.Backend.Debouncers

One debouncer and its timers, and what each act does to them (`Debouncing`): a call opens a window or takes the
place of the call that waits, the timer fires, and the call is taken. No other act touches them, unless it takes
away the timer of the debouncer.
-/

namespace ViewSync

variable {Code Store : Type}

/-- Whether a job is that of a debouncer. -/
def Job.isDebounced (d : DebouncerId) : Job Code → Bool
  | .debounced d' => d' = d
  | _ => false

theorem Job.isDebounced_iff {d : DebouncerId} {job : Job Code} :
    job.isDebounced d = true ↔ job = .debounced d := by
  cases job <;> simp [isDebounced]

/-- Whether an act calls a debouncer or takes its call. -/
def Act.concerns (d : DebouncerId) : Act Code Store → Bool
  | .callDebouncer d' _ => d' = d
  | .takeCall d' => d' = d
  | _ => false

namespace Backend

/-! ## the timers of a debouncer -/

/-- The timers that were set for a debouncer. -/
def timersOf (b : Backend Code Store) (d : DebouncerId) : List (Timer (Job Code)) :=
  b.clock.pending.filter (·.job.isDebounced d)

variable {b b' : Backend Code Store} {d : DebouncerId}

theorem mem_timersOf {t : Timer (Job Code)} :
    t ∈ b.timersOf d ↔ t ∈ b.clock.pending ∧ t.job = .debounced d := by
  rw [timersOf, List.mem_filter, Job.isDebounced_iff]

theorem timersOf_congr (clock : b'.clock = b.clock) : b'.timersOf d = b.timersOf d := by
  rw [timersOf, timersOf, clock]

theorem timersOf_schedule {delay : Nat} {job : Job Code} (other : job ≠ .debounced d) :
    (b.schedule delay job).2.timersOf d = b.timersOf d := by
  have hjob : job.isDebounced d = false := Bool.eq_false_iff.2 fun h => other (Job.isDebounced_iff.1 h)
  exact Clock.filter_place hjob b.clock.pending

theorem timersOf_schedule_self (delay : Nat) (none : b.timersOf d = []) :
    (b.schedule delay (.debounced d)).2.timersOf d =
      [⟨b.clock.now + delay, b.clock.nextId, .debounced d⟩] :=
  Clock.filter_place_of_nil (Job.isDebounced_iff.2 rfl) none

theorem timersOf_cancel {id : TimerId} (spared : ∀ t ∈ b.timersOf d, t.id ≠ id) :
    (b.cancel id).2.timersOf d = b.timersOf d := by
  show (b.clock.pending.filter _).filter _ = b.clock.pending.filter _
  rw [List.filter_filter]
  refine List.filter_congr fun t ht => ?_
  cases hjob : t.job.isDebounced d with
  | false => rfl
  | true => simpa using spared t (List.mem_filter.2 ⟨ht, hjob⟩)

/-! ## what acts do to a debouncer -/

/-- There is a debouncer, with a session, a window, and the call that waits. -/
def Debounces (b : Backend Code Store) (d : DebouncerId) (s : SessionId) (w : Nat) (call : Option Code) : Prop :=
  ∃ held, b.debouncers.get? d = some ⟨s, w, call, held⟩

/-- What an act does to a debouncer and its timers: nothing, or it is a call, which opens a window or takes the
place of the call that waits, or the timer fires, or the call is taken. -/
inductive Debouncing (b : Backend Code Store) (d : DebouncerId) (s : SessionId) (w : Nat) :
    Option Code → Act Code Store → Backend Code Store → Prop
  | idle {call : Option Code} {a : Act Code Store} {b' : Backend Code Store} (unconcerned : a.concerns d = false)
      (fires : ∀ t, a.fires? b = some t → t.job ≠ .debounced d) (is : b'.Debounces d s w call)
      (timers : b'.timersOf d = b.timersOf d) : Debouncing b d s w call a b'
  | opened {code : Code} {b' : Backend Code Store} (is : b'.Debounces d s w (some code))
      (timers : b.timersOf d = [] → b'.timersOf d = [⟨b.clock.now + w, b.clock.nextId, .debounced d⟩]) :
      Debouncing b d s w none (.callDebouncer d code) b'
  | replaced {code old : Code} {b' : Backend Code Store} (is : b'.Debounces d s w (some code))
      (timers : b'.timersOf d = b.timersOf d) : Debouncing b d s w (some old) (.callDebouncer d code) b'
  | fired {call : Option Code} {target : Nat} {t : Timer (Job Code)} {b' : Backend Code Store}
      (fires : (Act.takeDue target).fires? b = some t) (job : t.job = .debounced d) (is : b'.Debounces d s w call)
      (timers : b.timersOf d = t :: b'.timersOf d) (now : b'.clock.now = t.due) :
      Debouncing b d s w call (.takeDue target) b'
  | taken {call : Option Code} {b' : Backend Code Store} (is : b'.Debounces d s w none)
      (timers : b'.timersOf d = b.timersOf d) : Debouncing b d s w call (.takeCall d) b'

theorem Debounces.callWaits {s : SessionId} {w : Nat} {call : Option Code} (h : b.Debounces d s w call) :
    b.callWaits d = call.isSome := by
  obtain ⟨held, h⟩ := h
  rw [Backend.callWaits, h]
  rfl

theorem Debounces.of_get? {s : SessionId} {w : Nat} {call : Option Code} (h : b.Debounces d s w call)
    (same : b'.debouncers.get? d = b.debouncers.get? d) : b'.Debounces d s w call := by
  obtain ⟨held, h⟩ := h
  exact ⟨held, same.trans h⟩

theorem debouncers_disarm (b : Backend Code Store) (p : PeriodicId) : (b.disarm p).debouncers = b.debouncers := by
  unfold disarm
  split <;> rfl

theorem debouncers_arm (b : Backend Code Store) (p : PeriodicId) : (b.arm p).debouncers = b.debouncers := by
  unfold arm
  split
  · rfl
  · exact debouncers_disarm b p

namespace Regular

variable (h : b.Regular)

include h

theorem timersOf_disarm (p : PeriodicId) : (b.disarm p).timersOf d = b.timersOf d := by
  unfold Backend.disarm
  split
  · rfl
  · next id htimer =>
    obtain ⟨k, hk, hid⟩ := Option.bind_eq_some_iff.1 htimer
    have hcancel : (b.cancel id).2.timersOf d = b.timersOf d := timersOf_cancel fun t ht heq =>
      (h.apart p k id hk hid).2 t (mem_timersOf.1 ht).1 heq d (mem_timersOf.1 ht).2
    exact hcancel

theorem timersOf_arm (p : PeriodicId) : (b.arm p).timersOf d = b.timersOf d := by
  unfold Backend.arm
  split
  · rfl
  · next periodic _ =>
    have hset : ((b.disarm p).schedule periodic.period (.tick p)).2.timersOf d = (b.disarm p).timersOf d :=
      timersOf_schedule nofun
    exact hset.trans (h.timersOf_disarm p)

end Regular

/-! ## each act -/

variable {s : SessionId} {w : Nat} {call : Option Code} {a : Act Code Store}

/-- An act that leaves the debouncer and its timers. -/
theorem Debounces.idle (h : b.Debounces d s w call) (unconcerned : a.concerns d = false)
    (fires : a.fires? b = none) (same : (a.apply b).debouncers.get? d = b.debouncers.get? d)
    (timers : (a.apply b).timersOf d = b.timersOf d) : Debouncing b d s w call a (a.apply b) := by
  refine .idle unconcerned (fun t ht => ?_) (h.of_get? same) timers
  rw [fires] at ht
  cases ht

theorem Debounces.takeDue (h : b.Debounces d s w call) (target : Nat) :
    Debouncing b d s w call (.takeDue target) ((Act.takeDue target).apply b) := by
  cases hdue : b.clock.takeDue? target with
  | none =>
      have hsame := apply_takeDue_of_none hdue
      exact h.idle rfl (by simp [Act.fires?, hdue]) (by rw [hsame]) (by rw [hsame])
  | some taken =>
      obtain ⟨t, clock⟩ := taken
      obtain ⟨-, hpending, hclock⟩ := Clock.takeDue?_eq_some hdue
      have hfires : (Act.takeDue target).fires? b = some t := by simp [Act.fires?, hdue]
      have htimers : b.timersOf d =
          (t :: clock.pending).filter (·.job.isDebounced d) := by rw [timersOf, hpending]
      rw [apply_takeDue hdue]
      cases hjob : t.job.isDebounced d with
      | true =>
          rw [List.filter_cons, if_pos hjob] at htimers
          exact .fired hfires (Job.isDebounced_iff.1 hjob) (h.of_get? rfl) htimers (by rw [hclock])
      | false =>
          rw [List.filter_cons, if_neg (by simp [hjob])] at htimers
          refine .idle rfl (fun t' ht' heq => ?_) (h.of_get? rfl) htimers.symm
          obtain rfl : t = t' := Option.some.inj (hfires.symm.trans ht')
          rw [Job.isDebounced_iff.2 heq] at hjob
          cases hjob

theorem Debounces.callDebouncer (h : b.Debounces d s w call) (d' : DebouncerId) (code : Code) :
    Debouncing b d s w call (.callDebouncer d' code) (b.callDebouncer d' code) := by
  by_cases hd : d' = d
  · subst hd
    obtain ⟨held, hget⟩ := h
    let called : Backend Code Store :=
      { b with debouncers := b.debouncers.insert d' ⟨s, w, some code, held⟩ }
    have his : called.Debounces d' s w (some code) := ⟨held, Table.get?_insert_self⟩
    cases call with
    | none =>
        have heq : b.callDebouncer d' code = (called.schedule w (.debounced d')).2 := by
          simp [Backend.callDebouncer, hget, called]
        rw [heq]
        exact .opened his fun hnone => timersOf_schedule_self w hnone
    | some old =>
        have heq : b.callDebouncer d' code = called := by simp [Backend.callDebouncer, hget, called]
        rw [heq]
        exact .replaced his rfl
  · have hother : (b.callDebouncer d' code).debouncers.get? d = b.debouncers.get? d ∧
        (b.callDebouncer d' code).timersOf d = b.timersOf d := by
      unfold Backend.callDebouncer
      split
      · exact ⟨rfl, rfl⟩
      · dsimp only
        split
        · exact ⟨Table.get?_insert_ne (Ne.symm hd), rfl⟩
        · exact ⟨Table.get?_insert_ne (Ne.symm hd), timersOf_schedule fun hjob => hd (Job.debounced.inj hjob)⟩
    exact h.idle (by simpa [Act.concerns] using hd) rfl hother.1 hother.2

theorem Debounces.takeCall (h : b.Debounces d s w call) (d' : DebouncerId) :
    Debouncing b d s w call (.takeCall d') (b.takeCall d').2 := by
  by_cases hd : d' = d
  · subst hd
    obtain ⟨held, hget⟩ := h
    cases call with
    | none =>
        have heq : (b.takeCall d').2 = b := by simp [Backend.takeCall, hget]
        rw [heq]
        exact .taken ⟨held, hget⟩ rfl
    | some code =>
        have heq : (b.takeCall d').2 =
            { b with debouncers := b.debouncers.insert d' ⟨s, w, none, held⟩ } := by
          simp [Backend.takeCall, hget]
        rw [heq]
        exact .taken ⟨held, Table.get?_insert_self⟩ rfl
  · have hother : (b.takeCall d').2.debouncers.get? d = b.debouncers.get? d ∧
        (b.takeCall d').2.timersOf d = b.timersOf d := by
      unfold Backend.takeCall
      split
      · exact ⟨Table.get?_insert_ne (Ne.symm hd), rfl⟩
      · exact ⟨rfl, rfl⟩
    exact h.idle (by simpa [Act.concerns] using hd) rfl hother.1 hother.2

/-- Every act is one of these, if timers are set for tasks and the timer of the debouncer is not taken away. -/
theorem debouncing_apply (regular : b.Regular) (h : b.Debounces d s w call)
    (tasks : ∀ delay job, a = .schedule delay job → ∃ code, job = .task code)
    (spared : ∀ id, a = .cancel id → ∀ t ∈ b.timersOf d, t.id ≠ id) :
    Debouncing b d s w call a (a.apply b) := by
  cases ha : a.isOfTiming with
  | false =>
      have hsame := timing_apply ha b
      have hdebouncers : (a.apply b).debouncers = b.debouncers := congrArg (·.2.1) hsame
      refine h.idle ?_ ?_ (by rw [hdebouncers]) (timersOf_congr (congrArg (·.1) hsame))
      all_goals
        cases a with
        | callDebouncer | takeCall | takeDue => cases ha
        | _ => rfl
  | true =>
      cases a with
      | schedule delay job =>
          obtain ⟨code, rfl⟩ := tasks delay job rfl
          exact h.idle rfl rfl rfl (timersOf_schedule nofun)
      | cancel id => exact h.idle rfl rfl rfl (timersOf_cancel (spared id rfl))
      | takeDue target => exact h.takeDue target
      | reach target => exact h.idle rfl rfl rfl rfl
      | newDebouncer s' window =>
          obtain ⟨held, hget⟩ := h
          have hne : d ≠ b.debouncers.size := Nat.ne_of_lt (regular.numbered d (Table.mem_keys_of_get? hget))
          exact Debounces.idle ⟨held, hget⟩ rfl rfl (Table.get?_insert_ne hne) rfl
      | callDebouncer d' code => exact h.callDebouncer d' code
      | takeCall d' => exact h.takeCall d'
      | releaseDebouncer d' =>
          by_cases hd : d' = d
          · subst hd
            obtain ⟨held, hget⟩ := h
            refine .idle rfl nofun ⟨false, ?_⟩ rfl
            exact Table.get?_modify_self.trans (by rw [hget]; rfl)
          · exact h.idle rfl rfl (Table.get?_modify_ne (Ne.symm hd)) rfl
      | newPeriodic s' period code => exact h.idle rfl rfl rfl rfl
      | startPeriodic p =>
          have hstarted : (b.modifyPeriodic p fun periodic => { periodic with cleared := false }).Regular :=
            regular.modifyPeriodic p fun _ => .inl rfl
          refine h.idle rfl rfl ?_ (hstarted.timersOf_arm p)
          exact congrArg (Table.get? · d) (debouncers_arm _ p)
      | clearPeriodic p =>
          have hcleared : (b.modifyPeriodic p fun periodic => { periodic with cleared := true }).Regular :=
            regular.modifyPeriodic p fun _ => .inl rfl
          refine h.idle rfl rfl ?_ (hcleared.timersOf_disarm p)
          exact congrArg (Table.get? · d) (debouncers_disarm _ p)
      | takeTick p =>
          have hsame : (b.takeTick p).2.debouncers = b.debouncers ∧ (b.takeTick p).2.clock = b.clock := by
            unfold Backend.takeTick
            split
            · exact ⟨rfl, rfl⟩
            · split <;> exact ⟨rfl, rfl⟩
          exact h.idle rfl rfl (congrArg (Table.get? · d) hsame.1) (timersOf_congr hsame.2)
      | rearm p =>
          have hsame : (b.rearm p).debouncers = b.debouncers ∧ (b.rearm p).timersOf d = b.timersOf d := by
            unfold Backend.rearm
            split
            · split
              · exact ⟨debouncers_arm b p, regular.timersOf_arm p⟩
              · exact ⟨rfl, rfl⟩
            · exact ⟨rfl, rfl⟩
          exact h.idle rfl rfl (congrArg (Table.get? · d) hsame.1) hsame.2
      | releasePeriodic p => exact h.idle rfl rfl rfl rfl
      | _ => cases ha

end Backend

end ViewSync
