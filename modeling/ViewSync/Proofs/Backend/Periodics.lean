import ViewSync.Proofs.Backend.Timekeeping

/-!
# ViewSync.Proofs.Backend.Periodics

One periodic task and its timers, and what each act does to them (`Pacing`): the task is started or cleared, its timer
fires, its tick is taken, and it is armed anew. No other act touches them, unless it takes away the timer of the task
or gives up its handle. This rests on who owns which timer (`Owned`): the timer that a periodic task keeps is one that
was set for it.
-/

namespace ViewSync

variable {Code Store : Type}

/-- Whether a job is the tick of a periodic task. -/
def Job.isTick (p : PeriodicId) : Job Code → Bool
  | .tick p' => p' = p
  | _ => false

theorem Job.isTick_iff {p : PeriodicId} {job : Job Code} : job.isTick p = true ↔ job = .tick p := by
  cases job <;> simp [isTick]

/-- Whether an act starts or clears a periodic task, takes its tick or arms it anew. -/
def Act.paces (p : PeriodicId) : Act Code Store → Bool
  | .startPeriodic p' | .clearPeriodic p' | .takeTick p' | .rearm p' => p' = p
  | _ => false

namespace Backend

/-! ## who owns a timer -/

/-- Periodic tasks are numbered one after another, timers are set for periodic tasks that are there, and a timer that
a periodic task keeps was set for it. -/
structure Owned (b : Backend Code Store) : Prop where
  numbered : ∀ p ∈ b.periodics.keys, p < b.periodics.size
  known : ∀ t ∈ b.clock.pending, ∀ p, t.job = .tick p → p ∈ b.periodics.keys
  owner : ∀ p k id, b.periodics.get? p = some k → k.timer = some id →
    id < b.clock.nextId ∧ ∀ t ∈ b.clock.pending, t.id = id → t.job = .tick p

theorem owned_init (store : Store) : Owned (init store : Backend Code Store) where
  numbered _ hp := absurd hp List.not_mem_nil
  known _ ht := absurd ht List.not_mem_nil
  owner _ _ _ hk := by cases hk

section

variable (b : Backend Code Store) (p : PeriodicId)

theorem keys_modifyPeriodic (f : Periodic Code → Periodic Code) :
    (b.modifyPeriodic p f).periodics.keys = b.periodics.keys :=
  Table.keys_modify

theorem keys_disarm : (b.disarm p).periodics.keys = b.periodics.keys := by
  unfold disarm
  split
  · rfl
  · exact keys_modifyPeriodic b p _

theorem keys_arm : (b.arm p).periodics.keys = b.periodics.keys := by
  unfold arm
  split
  · rfl
  · exact Table.keys_modify.trans (keys_disarm b p)

end

namespace Owned

variable {b b' : Backend Code Store} (h : b.Owned)

include h

theorem of_timing (same : b'.timing = b.timing) : b'.Owned := by
  have hclock : b'.clock = b.clock := congrArg (·.1) same
  have hperiodics : b'.periodics = b.periodics := congrArg (·.2.2) same
  exact ⟨hperiodics ▸ h.numbered, hclock ▸ hperiodics ▸ h.known, hclock ▸ hperiodics ▸ h.owner⟩

/-- A change of the clock by which there may come new timers, for periodic tasks that are there. -/
theorem withClock {clock : Clock (Job Code)} (later : b.clock.nextId ≤ clock.nextId)
    (pending : ∀ t ∈ clock.pending, t ∈ b.clock.pending ∨
      b.clock.nextId ≤ t.id ∧ ∀ p, t.job = .tick p → p ∈ b.periodics.keys) :
    Owned { b with clock := clock } where
  numbered := h.numbered
  known t ht := (pending t ht).elim (h.known t) And.right
  owner p k id hk hid := by
    obtain ⟨hlt, hothers⟩ := h.owner p k id hk hid
    refine ⟨Nat.lt_of_lt_of_le hlt later, fun t ht heq => ?_⟩
    obtain hold | ⟨hnew, -⟩ := pending t ht
    · exact hothers t hold heq
    · exact absurd (Nat.lt_of_lt_of_le hlt hnew) (heq ▸ Nat.lt_irrefl _)

/-- A change of the clock by which there come no new timers. -/
theorem withTimers {clock : Clock (Job Code)} (same : clock.nextId = b.clock.nextId)
    (pending : ∀ t ∈ clock.pending, t ∈ b.clock.pending) : Owned { b with clock := clock } :=
  h.withClock (Nat.le_of_eq same.symm) fun t ht => .inl (pending t ht)

theorem schedule (delay : Nat) {job : Job Code} (known : ∀ p, job = .tick p → p ∈ b.periodics.keys) :
    (b.schedule delay job).2.Owned := by
  refine h.withClock (Nat.le_succ _) fun t ht => ?_
  obtain rfl | ht := Clock.mem_schedule.1 ht
  · exact .inr ⟨Nat.le_refl _, known⟩
  · exact .inl ht

theorem cancel (id : TimerId) : (b.cancel id).2.Owned :=
  h.withTimers rfl fun _ ht => (Clock.mem_cancel.1 ht).1

theorem takeDue (target : Nat) : (b.takeDue target).2.Owned := by
  unfold Backend.takeDue
  split
  · exact h
  · next t clock hdue =>
    obtain ⟨-, hpending, hclock⟩ := Clock.takeDue?_eq_some hdue
    refine h.withTimers (by rw [hclock]) fun t ht => ?_
    rw [hpending]
    exact List.mem_cons_of_mem _ ht

theorem callDebouncer (d : DebouncerId) (code : Code) : (b.callDebouncer d code).Owned := by
  unfold Backend.callDebouncer
  split
  · exact h
  · have hcalled : ∀ table, Owned { b with debouncers := table } := fun _ => ⟨h.numbered, h.known, h.owner⟩
    dsimp only
    split
    · exact hcalled _
    · exact (hcalled _).schedule _ nofun

theorem takeCall (d : DebouncerId) : (b.takeCall d).2.Owned := by
  unfold Backend.takeCall
  split
  · exact ⟨h.numbered, h.known, h.owner⟩
  · exact h

theorem newPeriodic (s : SessionId) (period : Nat) (code : Code) : (b.newPeriodic s period code).2.Owned := by
  have hkeys : (b.newPeriodic s period code).2.periodics.keys = b.periodics.keys ++ [b.periodics.size] :=
    Table.keys_insert_of_not_mem (fun hmem => Nat.lt_irrefl _ (h.numbered _ hmem)) _
  have hsize : (b.newPeriodic s period code).2.periodics.size = b.periodics.size + 1 := by
    simpa [Table.keys, Table.size] using congrArg List.length hkeys
  refine ⟨fun p hp => ?_, fun t ht p hjob => ?_, fun p k id hk hid => ?_⟩
  · rw [hkeys, List.mem_append, List.mem_singleton] at hp
    rw [hsize]
    obtain hp | rfl := hp
    · exact Nat.lt_succ_of_lt (h.numbered p hp)
    · exact Nat.lt_succ_self _
  · rw [hkeys]
    exact List.mem_append_left _ (h.known t ht p hjob)
  · have hget : (b.newPeriodic s period code).2.periodics.get? p = _ := Table.get?_insert
    rw [hget] at hk
    split at hk
    · obtain rfl := Option.some.inj hk
      cases hid
    · exact h.owner p k id hk hid

/-- A change of periodic tasks that leaves their numbers, and by which a task keeps only a timer that was set for it. -/
theorem withPeriodics {table : Table PeriodicId (Periodic Code)} (keys : table.keys = b.periodics.keys)
    (timers : ∀ p k id, table.get? p = some k → k.timer = some id →
      id < b.clock.nextId ∧ ∀ t ∈ b.clock.pending, t.id = id → t.job = .tick p) :
    Owned { b with periodics := table } where
  numbered p hp := by
    have hsize : table.size = b.periodics.size := by
      simpa [Table.keys, Table.size] using congrArg List.length keys
    rw [hsize]
    exact h.numbered p (keys ▸ hp)
  known t ht p hjob := keys ▸ h.known t ht p hjob
  owner := timers

/-- A change of one periodic task by which it keeps its timer, or none, or one that was set for it. -/
theorem modifyPeriodic (p : PeriodicId) {f : Periodic Code → Periodic Code}
    (timer : ∀ k, (f k).timer = k.timer ∨ ∀ id, (f k).timer = some id →
      id < b.clock.nextId ∧ ∀ t ∈ b.clock.pending, t.id = id → t.job = .tick p) : (b.modifyPeriodic p f).Owned := by
  refine h.withPeriodics Table.keys_modify fun p' k id hk hid => ?_
  rw [Table.get?_modify] at hk
  split at hk
  · next hp =>
    obtain ⟨k', hk', rfl⟩ := Option.map_eq_some_iff.1 hk
    obtain hkept | hset := timer k'
    · exact h.owner p' k' id (hp ▸ hk') (hkept ▸ hid)
    · rw [hp]
      exact hset id hid
  · exact h.owner p' k id hk hid

theorem unsetPeriodic (p : PeriodicId) {f : Periodic Code → Periodic Code} (timer : ∀ k, (f k).timer = none) :
    (b.modifyPeriodic p f).Owned := by
  refine h.modifyPeriodic p fun k => .inr fun id hid => ?_
  rw [timer] at hid
  cases hid

theorem disarm (p : PeriodicId) : (b.disarm p).Owned := by
  unfold Backend.disarm
  split
  · exact h
  · exact (h.unsetPeriodic p fun _ => rfl).cancel _

theorem arm (regular : b.Regular) (p : PeriodicId) : (b.arm p).Owned := by
  unfold Backend.arm
  split
  · exact h
  · next periodic hget =>
    have hkey : p ∈ (b.disarm p).periodics.keys := by
      rw [keys_disarm]
      exact Table.mem_keys_of_get? hget
    have hset : ((b.disarm p).schedule periodic.period (.tick p)).2.Owned :=
      (h.disarm p).schedule _ fun p' hjob => Job.tick.inj hjob ▸ hkey
    refine hset.modifyPeriodic p fun k => .inr fun id hid => ?_
    obtain rfl := Option.some.inj hid
    refine ⟨Nat.lt_succ_self _, fun t ht heq => ?_⟩
    obtain rfl | ht := Clock.mem_schedule.1 ht
    · rfl
    · exact absurd ((regular.disarm p).orderly.numbered t ht) (heq ▸ Nat.lt_irrefl _)

theorem takeTick (p : PeriodicId) : (b.takeTick p).2.Owned := by
  unfold Backend.takeTick
  split
  · exact h
  · split
    · exact h.unsetPeriodic p fun _ => rfl
    · exact h

theorem rearm (regular : b.Regular) (p : PeriodicId) : (b.rearm p).Owned := by
  unfold Backend.rearm
  split
  · split
    · exact h.arm regular p
    · exact h
  · exact h

/-- Acts leave timers with their owners, if the program sets timers for tasks alone. -/
theorem apply {a : Act Code Store} (regular : b.Regular)
    (tasks : ∀ delay job, a = .schedule delay job → ∃ code, job = .task code) : (a.apply b).Owned := by
  cases ha : a.isOfTiming with
  | false => exact h.of_timing (timing_apply ha b)
  | true =>
      cases a with
      | schedule delay job =>
          obtain ⟨code, rfl⟩ := tasks delay job rfl
          exact h.schedule delay nofun
      | cancel id => exact h.cancel id
      | takeDue target => exact h.takeDue target
      | reach target => exact h.withTimers rfl fun _ => id
      | newDebouncer | releaseDebouncer => exact ⟨h.numbered, h.known, h.owner⟩
      | callDebouncer d code => exact h.callDebouncer d code
      | takeCall d => exact h.takeCall d
      | newPeriodic s period code => exact h.newPeriodic s period code
      | startPeriodic p =>
          refine arm ?_ ?_ p
          · exact h.modifyPeriodic p fun _ => .inl rfl
          · exact regular.modifyPeriodic p fun _ => .inl rfl
      | clearPeriodic p =>
          refine disarm ?_ p
          exact h.modifyPeriodic p fun _ => .inl rfl
      | takeTick p => exact h.takeTick p
      | rearm p => exact h.rearm regular p
      | releasePeriodic p => exact h.modifyPeriodic p fun _ => .inl rfl
      | _ => cases ha

end Owned

/-- In a course that is timely the timers are with their owners at every point. -/
theorem owned_play {fires : Job Code → Backend Code Store → List (Act Code Store) → Prop} {fired : Option (Job Code)}
    {b : Backend Code Store} {acts : List (Act Code Store)} (timely : Timely fires fired b acts) (regular : b.Regular)
    (owned : b.Owned) {q : List (Act Code Store)} (hq : q <+: acts) : (b.play q).Owned := by
  refine play_induction (b := b) (I := fun _ b' => b'.Owned) owned (fun pre a hpre h => ?_) hq
  have hregular := regular_play timely regular ((List.prefix_append _ _).trans hpre)
  exact h.apply hregular fun delay job ha => timely.tasks delay job (ha ▸ hpre.subset List.mem_concat_self)

/-- No act takes a periodic task away. -/
theorem mem_periodics_apply {b : Backend Code Store} {p : PeriodicId} (h : p ∈ b.periodics.keys)
    (a : Act Code Store) : p ∈ (a.apply b).periodics.keys := by
  have harm : ∀ {b : Backend Code Store} {p'}, p ∈ b.periodics.keys → p ∈ (b.arm p').periodics.keys :=
    fun h => by rwa [keys_arm]
  have hmodify : ∀ {b : Backend Code Store} {p' f}, p ∈ b.periodics.keys →
      p ∈ (b.modifyPeriodic p' f).periodics.keys := fun h => by rwa [keys_modifyPeriodic]
  cases ha : a.isOfTiming with
  | false =>
      have hsame : (a.apply b).periodics = b.periodics := congrArg (·.2.2) (timing_apply ha b)
      rwa [hsame]
  | true =>
      cases a with
      | schedule | cancel | reach | newDebouncer | releaseDebouncer => exact h
      | takeDue target =>
          show p ∈ (b.takeDue target).2.periodics.keys
          unfold Backend.takeDue
          split <;> exact h
      | callDebouncer d code =>
          show p ∈ (b.callDebouncer d code).periodics.keys
          unfold Backend.callDebouncer
          split
          · exact h
          · dsimp only
            split <;> exact h
      | takeCall d =>
          show p ∈ (b.takeCall d).2.periodics.keys
          unfold Backend.takeCall
          split <;> exact h
      | newPeriodic s period code =>
          show p ∈ (b.periodics.insert b.periodics.size _).keys
          by_cases hnew : b.periodics.size ∈ b.periodics.keys
          · rwa [Table.keys_insert_of_mem hnew]
          · rw [Table.keys_insert_of_not_mem hnew]
            exact List.mem_append_left _ h
      | startPeriodic p' => exact harm (hmodify h)
      | clearPeriodic p' =>
          show p ∈ (Backend.disarm _ p').periodics.keys
          rw [keys_disarm]
          exact hmodify h
      | takeTick p' =>
          show p ∈ (b.takeTick p').2.periodics.keys
          unfold Backend.takeTick
          split
          · exact h
          · split
            · exact hmodify h
            · exact h
      | rearm p' =>
          show p ∈ (b.rearm p').periodics.keys
          unfold Backend.rearm
          split
          · split
            · exact harm h
            · exact h
          · exact h
      | releasePeriodic p' => exact hmodify h
      | _ => cases ha

/-! ## the timers of a periodic task -/

/-- The timers that were set for the ticks of a periodic task. -/
def ticksOf (b : Backend Code Store) (p : PeriodicId) : List (Timer (Job Code)) :=
  b.clock.pending.filter (·.job.isTick p)

variable {b b' : Backend Code Store} {p : PeriodicId}

theorem mem_ticksOf {t : Timer (Job Code)} : t ∈ b.ticksOf p ↔ t ∈ b.clock.pending ∧ t.job = .tick p := by
  rw [ticksOf, List.mem_filter, Job.isTick_iff]

theorem ticksOf_congr (clock : b'.clock = b.clock) : b'.ticksOf p = b.ticksOf p := by
  rw [ticksOf, ticksOf, clock]

theorem ticksOf_schedule {delay : Nat} {job : Job Code} (other : job ≠ .tick p) :
    (b.schedule delay job).2.ticksOf p = b.ticksOf p := by
  have hjob : job.isTick p = false := Bool.eq_false_iff.2 fun h => other (Job.isTick_iff.1 h)
  exact Clock.filter_place hjob b.clock.pending

theorem ticksOf_schedule_self (delay : Nat) (none : b.ticksOf p = []) :
    (b.schedule delay (.tick p)).2.ticksOf p = [⟨b.clock.now + delay, b.clock.nextId, .tick p⟩] :=
  Clock.filter_place_of_nil (Job.isTick_iff.2 rfl) none

theorem ticksOf_cancel (b : Backend Code Store) (id : TimerId) :
    (b.cancel id).2.ticksOf p = (b.ticksOf p).filter (·.id ≠ id) := by
  show (b.clock.pending.filter _).filter _ = _
  rw [ticksOf, List.filter_comm]

theorem ticksOf_cancel_of_spared {id : TimerId} (spared : ∀ t ∈ b.ticksOf p, t.id ≠ id) :
    (b.cancel id).2.ticksOf p = b.ticksOf p := by
  rw [ticksOf_cancel, List.filter_eq_self]
  simpa using spared

/-- Timers have numbers of their own, so that a number that all timers of a task share belongs to at most one. -/
theorem length_ticksOf_le (orderly : b.clock.Orderly []) {id : Option TimerId}
    (stored : ∀ t ∈ b.ticksOf p, id = some t.id) : (b.ticksOf p).length ≤ 1 := by
  have hnodup : ((b.ticksOf p).map (·.id)).Nodup := orderly.nodup.sublist (List.filter_sublist.map _)
  cases hticks : b.ticksOf p with
  | nil => exact Nat.zero_le 1
  | cons t ts =>
      cases ts with
      | nil => exact Nat.le_refl 1
      | cons t' ts =>
          rw [hticks] at hnodup stored
          have hsame : t.id = t'.id := Option.some.inj ((stored t (by simp)).symm.trans (stored t' (by simp)))
          simp [hsame] at hnodup

/-! ## what acts do to a periodic task -/

/-- There is a periodic task of which the program holds a handle, with a session, a period and code; it keeps this
timer, and is cleared or not. -/
def Paces (b : Backend Code Store) (p : PeriodicId) (s : SessionId) (w : Nat) (code : Code) (timer : Option TimerId)
    (cleared : Bool) : Prop :=
  b.periodics.get? p = some ⟨s, w, code, timer, cleared, true⟩

/-- What an act does to a periodic task and its timers: nothing, or the task is started or cleared, or its timer
fires, or its tick is taken, or it is armed anew, unless it is cleared or armed already. -/
inductive Pacing (b : Backend Code Store) (p : PeriodicId) (s : SessionId) (w : Nat) (code : Code) :
    Option TimerId → Bool → Act Code Store → Backend Code Store → Prop
  | idle {timer : Option TimerId} {cleared : Bool} {a : Act Code Store} {b' : Backend Code Store}
      (unpaced : a.paces p = false) (fires : ∀ t, a.fires? b = some t → t.job ≠ .tick p)
      (is : b'.Paces p s w code timer cleared) (timers : b'.ticksOf p = b.ticksOf p) :
      Pacing b p s w code timer cleared a b'
  | started {timer : Option TimerId} {cleared : Bool} {b' : Backend Code Store}
      (is : b'.Paces p s w code (some b.clock.nextId) false)
      (timers : b'.ticksOf p = [⟨b.clock.now + w, b.clock.nextId, .tick p⟩]) :
      Pacing b p s w code timer cleared (.startPeriodic p) b'
  | cleared {timer : Option TimerId} {cleared : Bool} {b' : Backend Code Store} (is : b'.Paces p s w code none true)
      (timers : b'.ticksOf p = []) : Pacing b p s w code timer cleared (.clearPeriodic p) b'
  | fired {timer : Option TimerId} {cleared : Bool} {target : Nat} {t : Timer (Job Code)} {b' : Backend Code Store}
      (fires : (Act.takeDue target).fires? b = some t) (job : t.job = .tick p)
      (is : b'.Paces p s w code timer cleared) (timers : b.ticksOf p = t :: b'.ticksOf p)
      (now : b'.clock.now = t.due) : Pacing b p s w code timer cleared (.takeDue target) b'
  | taken {timer : Option TimerId} {cleared : Bool} {b' : Backend Code Store}
      (is : b'.Paces p s w code none cleared) (timers : b'.ticksOf p = b.ticksOf p) :
      Pacing b p s w code timer cleared (.takeTick p) b'
  | rearmed {b' : Backend Code Store} (is : b'.Paces p s w code (some b.clock.nextId) false)
      (timers : b'.ticksOf p = [⟨b.clock.now + w, b.clock.nextId, .tick p⟩]) :
      Pacing b p s w code none false (.rearm p) b'
  | skipped {timer : Option TimerId} {cleared : Bool} {b' : Backend Code Store}
      (busy : cleared = true ∨ timer ≠ none) (is : b'.Paces p s w code timer cleared)
      (timers : b'.ticksOf p = b.ticksOf p) : Pacing b p s w code timer cleared (.rearm p) b'

namespace Owned

variable (h : b.Owned) {p' : PeriodicId}

include h

/-- Another task takes away no timer of this one. -/
theorem ticksOf_disarm (other : p' ≠ p) : (b.disarm p').ticksOf p = b.ticksOf p := by
  unfold Backend.disarm
  split
  · rfl
  · next id htimer =>
    obtain ⟨k, hk, hid⟩ := Option.bind_eq_some_iff.1 htimer
    have hcancel : (b.cancel id).2.ticksOf p = b.ticksOf p := ticksOf_cancel_of_spared fun t ht heq => by
      have hjob := (h.owner p' k id hk hid).2 t (mem_ticksOf.1 ht).1 heq
      exact other (Job.tick.inj (hjob.symm.trans (mem_ticksOf.1 ht).2))
    exact hcancel

theorem ticksOf_arm (other : p' ≠ p) : (b.arm p').ticksOf p = b.ticksOf p := by
  unfold Backend.arm
  split
  · rfl
  · next periodic _ =>
    have hset : ((b.disarm p').schedule periodic.period (.tick p')).2.ticksOf p = (b.disarm p').ticksOf p :=
      ticksOf_schedule fun hjob => other (Job.tick.inj hjob)
    exact hset.trans (h.ticksOf_disarm other)

end Owned

theorem get?_disarm_ne {p' : PeriodicId} (other : p' ≠ p) :
    (b.disarm p').periodics.get? p = b.periodics.get? p := by
  unfold disarm
  split
  · rfl
  · exact Table.get?_modify_ne (Ne.symm other)

theorem get?_arm_ne {p' : PeriodicId} (other : p' ≠ p) : (b.arm p').periodics.get? p = b.periodics.get? p := by
  unfold arm
  split
  · rfl
  · exact (Table.get?_modify_ne (Ne.symm other)).trans (get?_disarm_ne other)

namespace Paces

variable {s : SessionId} {w : Nat} {code : Code} {timer : Option TimerId} {cleared : Bool} {a : Act Code Store}
  (h : b.Paces p s w code timer cleared)

include h

theorem modify (f : Periodic Code → Periodic Code) :
    (b.modifyPeriodic p f).periodics.get? p = some (f ⟨s, w, code, timer, cleared, true⟩) :=
  Table.get?_modify_self.trans (congrArg (Option.map f) h)

/-- The timers of a task that keeps none but the one it knows of are taken away. -/
theorem disarm (stored : ∀ t ∈ b.ticksOf p, timer = some t.id) :
    (b.disarm p).Paces p s w code none cleared ∧ (b.disarm p).ticksOf p = [] ∧
      (b.disarm p).clock.now = b.clock.now ∧ (b.disarm p).clock.nextId = b.clock.nextId := by
  have htimer : (b.periodics.get? p).bind (·.timer) = timer := by
    rw [h]
    rfl
  cases timer with
  | none =>
      have hsame : b.disarm p = b := by rw [Backend.disarm, htimer]
      rw [hsame]
      refine ⟨h, List.eq_nil_iff_forall_not_mem.2 fun t ht => ?_, rfl, rfl⟩
      cases stored t ht
  | some id =>
      have hcancelled : b.disarm p = ((b.modifyPeriodic p fun k => { k with timer := none }).cancel id).2 := by
        rw [Backend.disarm, htimer]
      rw [hcancelled]
      refine ⟨h.modify _, ?_, rfl, rfl⟩
      rw [ticksOf_cancel, List.filter_eq_nil_iff]
      intro t ht
      simpa using (Option.some.inj (stored t ht)).symm

/-- A task that is armed has one timer, which is due a period later. -/
theorem arm (stored : ∀ t ∈ b.ticksOf p, timer = some t.id) :
    (b.arm p).Paces p s w code (some b.clock.nextId) cleared ∧
      (b.arm p).ticksOf p = [⟨b.clock.now + w, b.clock.nextId, .tick p⟩] := by
  obtain ⟨hdisarmed, hnone, hnow, hid⟩ := h.disarm stored
  have harm : b.arm p = ((b.disarm p).schedule w (.tick p)).2.modifyPeriodic p
      fun k => { k with timer := some (b.disarm p).clock.nextId } := by
    rw [Backend.arm, h]
    rfl
  have hset : ((b.disarm p).schedule w (.tick p)).2.Paces p s w code none cleared := hdisarmed
  rw [harm, ← hnow, ← hid]
  exact ⟨hset.modify _, ticksOf_schedule_self w hnone⟩

/-- An act that leaves the task and its timers. -/
theorem idle (unpaced : a.paces p = false) (fires : a.fires? b = none)
    (same : (a.apply b).periodics.get? p = b.periodics.get? p) (timers : (a.apply b).ticksOf p = b.ticksOf p) :
    Pacing b p s w code timer cleared a (a.apply b) := by
  refine .idle unpaced (fun t ht => ?_) (same.trans h) timers
  rw [fires] at ht
  cases ht

theorem takeDue (target : Nat) :
    Pacing b p s w code timer cleared (.takeDue target) ((Act.takeDue target).apply b) := by
  cases hdue : b.clock.takeDue? target with
  | none =>
      have hsame := apply_takeDue_of_none hdue
      exact h.idle rfl (by simp [Act.fires?, hdue]) (by rw [hsame]) (by rw [hsame])
  | some taken =>
      obtain ⟨t, clock⟩ := taken
      obtain ⟨-, hpending, hclock⟩ := Clock.takeDue?_eq_some hdue
      have hfires : (Act.takeDue target).fires? b = some t := by simp [Act.fires?, hdue]
      have htimers : b.ticksOf p = (t :: clock.pending).filter (·.job.isTick p) := by rw [ticksOf, hpending]
      rw [apply_takeDue hdue]
      cases hjob : t.job.isTick p with
      | true =>
          rw [List.filter_cons, if_pos hjob] at htimers
          exact .fired hfires (Job.isTick_iff.1 hjob) h htimers (by rw [hclock])
      | false =>
          rw [List.filter_cons, if_neg (by simp [hjob])] at htimers
          refine .idle rfl (fun t' ht' heq => ?_) h htimers.symm
          obtain rfl : t = t' := Option.some.inj (hfires.symm.trans ht')
          rw [Job.isTick_iff.2 heq] at hjob
          cases hjob

theorem callDebouncer (d : DebouncerId) (code' : Code) :
    Pacing b p s w code timer cleared (.callDebouncer d code') (b.callDebouncer d code') := by
  have hsame : (b.callDebouncer d code').periodics = b.periodics ∧
      (b.callDebouncer d code').ticksOf p = b.ticksOf p := by
    unfold Backend.callDebouncer
    split
    · exact ⟨rfl, rfl⟩
    · dsimp only
      split
      · exact ⟨rfl, rfl⟩
      · exact ⟨rfl, ticksOf_schedule nofun⟩
  exact h.idle rfl rfl (congrArg (Table.get? · p) hsame.1) hsame.2

theorem takeTick (p' : PeriodicId) : Pacing b p s w code timer cleared (.takeTick p') (b.takeTick p').2 := by
  by_cases hp : p' = p
  · subst hp
    have htaken : (b.takeTick p').2 = b.modifyPeriodic p' fun k => { k with timer := none } := by
      rw [Backend.takeTick, h]
      rfl
    rw [htaken]
    exact .taken (h.modify _) rfl
  · have hother : (b.takeTick p').2.periodics.get? p = b.periodics.get? p ∧
        (b.takeTick p').2.ticksOf p = b.ticksOf p := by
      unfold Backend.takeTick
      split
      · exact ⟨rfl, rfl⟩
      · split
        · exact ⟨Table.get?_modify_ne (Ne.symm hp), rfl⟩
        · exact ⟨rfl, rfl⟩
    exact h.idle (by simpa [Act.paces] using hp) rfl hother.1 hother.2

variable (owned : b.Owned) (stored : ∀ t ∈ b.ticksOf p, timer = some t.id)

include owned stored

theorem startPeriodic (p' : PeriodicId) :
    Pacing b p s w code timer cleared (.startPeriodic p') (b.startPeriodic p') := by
  by_cases hp : p' = p
  · subst hp
    have hopened : (b.modifyPeriodic p' fun k => { k with cleared := false }).Paces p' s w code timer false :=
      h.modify _
    obtain ⟨his, htimers⟩ := hopened.arm stored
    exact .started his htimers
  · have hopened : (b.modifyPeriodic p' fun k => { k with cleared := false }).Owned :=
      owned.modifyPeriodic p' fun _ => .inl rfl
    refine h.idle (by simpa [Act.paces] using hp) rfl ?_ (hopened.ticksOf_arm hp)
    exact (get?_arm_ne hp).trans (Table.get?_modify_ne (Ne.symm hp))

theorem clearPeriodic (p' : PeriodicId) :
    Pacing b p s w code timer cleared (.clearPeriodic p') (b.clearPeriodic p') := by
  by_cases hp : p' = p
  · subst hp
    have hclosed : (b.modifyPeriodic p' fun k => { k with cleared := true }).Paces p' s w code timer true :=
      h.modify _
    obtain ⟨his, htimers, -⟩ := hclosed.disarm stored
    exact .cleared his htimers
  · have hclosed : (b.modifyPeriodic p' fun k => { k with cleared := true }).Owned :=
      owned.modifyPeriodic p' fun _ => .inl rfl
    refine h.idle (by simpa [Act.paces] using hp) rfl ?_ (hclosed.ticksOf_disarm hp)
    exact (get?_disarm_ne hp).trans (Table.get?_modify_ne (Ne.symm hp))

theorem rearm (p' : PeriodicId) : Pacing b p s w code timer cleared (.rearm p') (b.rearm p') := by
  by_cases hp : p' = p
  · subst hp
    have hcases : b.rearm p' = if ¬ cleared = true ∧ timer.isNone = true then b.arm p' else b := by
      rw [Backend.rearm, h]
    rw [hcases]
    split
    · next hfree =>
      obtain rfl : cleared = false := by simpa using hfree.1
      obtain rfl : timer = none := by simpa using hfree.2
      obtain ⟨his, htimers⟩ := h.arm stored
      exact .rearmed his htimers
    · next hbusy =>
      refine .skipped ?_ h rfl
      by_cases hcleared : cleared = true
      · exact .inl hcleared
      · exact .inr fun hnone => hbusy ⟨hcleared, by rw [hnone]; rfl⟩
  · have hother : (b.rearm p').periodics.get? p = b.periodics.get? p ∧ (b.rearm p').ticksOf p = b.ticksOf p := by
      unfold Backend.rearm
      split
      · split
        · exact ⟨get?_arm_ne hp, owned.ticksOf_arm hp⟩
        · exact ⟨rfl, rfl⟩
      · exact ⟨rfl, rfl⟩
    exact h.idle (by simpa [Act.paces] using hp) rfl hother.1 hother.2

/-- Every act is one of these, if timers are set for tasks, and neither the timer of the periodic task is taken away
nor its handle is given up. -/
theorem apply (tasks : ∀ delay job, a = .schedule delay job → ∃ code, job = .task code)
    (spared : ∀ id, a = .cancel id → ∀ t ∈ b.ticksOf p, t.id ≠ id) (kept : a ≠ .releasePeriodic p) :
    Pacing b p s w code timer cleared a (a.apply b) := by
  cases ha : a.isOfTiming with
  | false =>
      have hsame := timing_apply ha b
      have hperiodics : (a.apply b).periodics = b.periodics := congrArg (·.2.2) hsame
      refine h.idle ?_ ?_ (by rw [hperiodics]) (ticksOf_congr (congrArg (·.1) hsame))
      all_goals
        cases a with
        | startPeriodic | clearPeriodic | takeTick | rearm | takeDue => cases ha
        | _ => rfl
  | true =>
      cases a with
      | schedule delay job =>
          obtain ⟨code', rfl⟩ := tasks delay job rfl
          exact h.idle rfl rfl rfl (ticksOf_schedule nofun)
      | cancel id => exact h.idle rfl rfl rfl (ticksOf_cancel_of_spared (spared id rfl))
      | takeDue target => exact h.takeDue target
      | reach | newDebouncer | releaseDebouncer => exact h.idle rfl rfl rfl rfl
      | callDebouncer d code' => exact h.callDebouncer d code'
      | takeCall d =>
          have hsame : (b.takeCall d).2.periodics = b.periodics ∧ (b.takeCall d).2.clock = b.clock := by
            unfold Backend.takeCall
            split <;> exact ⟨rfl, rfl⟩
          exact h.idle rfl rfl (congrArg (Table.get? · p) hsame.1) (ticksOf_congr hsame.2)
      | newPeriodic s' period code' =>
          have hne : p ≠ b.periodics.size := Nat.ne_of_lt (owned.numbered p (Table.mem_keys_of_get? h))
          exact h.idle rfl rfl (Table.get?_insert_ne hne) rfl
      | startPeriodic p' => exact h.startPeriodic owned stored p'
      | clearPeriodic p' => exact h.clearPeriodic owned stored p'
      | takeTick p' => exact h.takeTick p'
      | rearm p' => exact h.rearm owned stored p'
      | releasePeriodic p' =>
          have hne : p ≠ p' := fun heq => kept (by rw [heq])
          exact h.idle rfl rfl (Table.get?_modify_ne hne) rfl
      | _ => cases ha

end Paces

end Backend

end ViewSync
