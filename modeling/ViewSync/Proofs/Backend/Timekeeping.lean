import ViewSync.Proofs.Backend.Timely

/-!
# ViewSync.Proofs.Backend.Timekeeping

What acts do to the clock, to debouncers and to periodic tasks.

* `timing_apply` — most acts leave all three alone;
* `Regular` — the timers are in order, and those of debouncers and of periodic tasks are told apart.
-/

namespace ViewSync

variable {Code Store : Type}

namespace Backend

/-! ## acts that leave timers alone -/

/-- What there is of timers: the clock, the debouncers and the periodic tasks. -/
def timing (b : Backend Code Store) :
    Clock (Job Code) × Table DebouncerId (Debouncer Code) × Table PeriodicId (Periodic Code) :=
  (b.clock, b.debouncers, b.periodics)

section

variable (b : Backend Code Store)

@[simp] theorem timing_modifySession (s : SessionId) (f : Session → Session) :
    (b.modifySession s f).timing = b.timing := rfl

@[simp] theorem timing_setComponent (c : ComponentId) (k : Component Code) :
    (b.setComponent c k).timing = b.timing := rfl

@[simp] theorem timing_record (e : Event) : (b.record e).timing = b.timing := rfl

theorem timing_foldl {γ : Type} {f : Backend Code Store → γ → Backend Code Store}
    (h : ∀ b x, (f b x).timing = b.timing) (xs : List γ) : (xs.foldl f b).timing = b.timing := by
  induction xs generalizing b with
  | nil => rfl
  | cons x xs ih => exact (ih (f b x)).trans (h b x)

/-! ### messages -/

@[simp] theorem timing_send (s : SessionId) (m : Message) : (b.send s m).timing = b.timing := by
  unfold send
  dsimp only
  split
  · rfl
  · split <;> rfl

@[simp] theorem timing_sendFrom (c : ComponentId) (m : Message) : (b.sendFrom c m).timing = b.timing := by
  unfold sendFrom
  split
  · exact timing_send b _ m
  · rfl

@[simp] theorem timing_sendRaw (s : SessionId) (text : String) : (b.sendRaw s text).2.timing = b.timing := by
  unfold sendRaw
  split <;> rfl

/-! ### components -/

@[simp] theorem timing_tell (c : ComponentId) (k : Component Code) (d : Option (Delivery Code)) :
    (b.tell c k d).timing = b.timing := by
  cases d with
  | none => rfl
  | some d =>
      unfold tell forward
      dsimp only
      split
      · exact timing_sendFrom _ c _
      · rfl

@[simp] theorem timing_close (s : SessionId) : (b.close s).timing = b.timing := by
  refine (timing_foldl _ ?_ _).trans (timing_modifySession b s _)
  exact fun _ _ => rfl

theorem timing_enroll (s : SessionId) (kind : Kind Code) (definition : ViewDefinition) :
    (b.enroll s kind definition).2.timing = b.timing := by
  have hjoined : (b.takeNumber.join s b.nextComponent kind definition).timing = b.timing := rfl
  unfold enroll
  dsimp only
  split
  · rfl
  · split
    · rfl
    · split <;> simp [hjoined]

theorem timing_destroy (c : ComponentId) : (b.afterTry (b.destroy c)).timing = b.timing := by
  unfold destroy
  split
  · rfl
  · split
    · rfl
    · exact timing_sendFrom _ c _

theorem timing_change (c : ComponentId) (changes : Fields) (options : UpdateOptions) :
    (b.afterTry ((b.change c changes options).map (·.2))).timing = b.timing := by
  unfold change
  split
  · rfl
  · next k _ =>
    cases k.write c changes options with
    | error e => rfl
    | ok written => exact timing_tell b c written.1 written.2

theorem timing_openBatch (c : ComponentId) (holder : BatchHolder) (options : UpdateOptions) :
    (b.afterTry (b.openBatch c holder options)).timing = b.timing := by
  unfold openBatch
  split
  · rfl
  · next k _ => cases k.openBatch c holder options <;> rfl

theorem timing_beginBatch (c : ComponentId) (options : UpdateOptions) :
    (b.afterTry ((b.beginBatch c options).map (·.2))).timing = b.timing := by
  unfold beginBatch openBatch
  split
  · rfl
  · next k _ => cases k.openBatch c (.handle b.nextBatch) options <;> rfl

theorem timing_commit (c : ComponentId) (holder : BatchHolder) : (b.commit c holder).2.timing = b.timing := by
  unfold commit
  split
  · rfl
  · exact timing_tell b c _ _

theorem timing_drop (c : ComponentId) (holder : BatchHolder) : (b.drop c holder).timing = b.timing := by
  unfold drop
  split <;> rfl

theorem timing_listen (c : ComponentId) (fields : Option (List String)) (code : Code) :
    (b.listen c fields code).2.timing = b.timing := by
  unfold listen
  split <;> rfl

theorem timing_unlisten (c : ComponentId) (id : ListenerId) : (b.unlisten c id).2.timing = b.timing := by
  unfold unlisten
  split <;> rfl

/-! ### activations -/

@[simp] theorem timing_releaseNamed (s : SessionId) (name : String) :
    (b.releaseNamed s name).timing = b.timing := by
  unfold releaseNamed
  split <;> rfl

@[simp] theorem timing_engage (s : SessionId) (name : String) (source : WrapperSource) :
    (b.engage s name source).timing = b.timing := by
  cases source with
  | ready instance_ => exact timing_releaseNamed b s name
  | factory label => exact timing_releaseNamed b s name

theorem timing_engageAll (s : SessionId) : (b.engageAll s).timing = b.timing :=
  timing_foldl b (fun _ _ => timing_engage _ s _ _) _

theorem timing_releaseAll (s : SessionId) : (b.releaseAll s).timing = b.timing := by
  refine (timing_foldl _ ?_ _).trans (timing_modifySession b s _)
  exact fun _ _ => rfl

theorem timing_enter (s : SessionId) (held : Bool) : (b.enter s held).2.timing = b.timing := by
  unfold enter
  dsimp only
  split
  · exact timing_engageAll _ s
  · rfl

theorem timing_leave (guard : Guard) : (b.leave guard).timing = b.timing := by
  unfold leave
  dsimp only
  split
  · exact timing_releaseAll _ guard.session
  · rfl

theorem timing_leaveNumber (id : GuardId) : (b.leaveNumber id).timing = b.timing := by
  unfold leaveNumber
  split
  · exact timing_leave b _
  · rfl

theorem timing_exit (id : GuardId) : (b.exit id).timing = b.timing := by
  unfold exit
  split
  · split
    · exact timing_leave b _
    · rfl
  · rfl

theorem timing_addWrapper (s : SessionId) (name : String) (source : WrapperSource) :
    (b.afterTry (b.addWrapper s name source)).timing = b.timing := by
  unfold addWrapper
  dsimp only
  split
  · rfl
  · show (if _ then _ else _ : Backend Code Store).timing = _
    split
    · exact timing_engage _ s name source
    · rfl

theorem timing_removeWrapper (s : SessionId) (name : String) (exitNow : Bool) :
    (b.afterTry (b.removeWrapper s name exitNow)).timing = b.timing := by
  unfold removeWrapper
  split
  · show (if _ then _ else _ : Backend Code Store).timing = _
    split
    · exact timing_releaseNamed _ s name
    · rfl
  · rfl

end

end Backend

/-- Whether an act is one of timers, debouncers or periodic tasks. -/
def Act.isOfTiming : Act Code Store → Bool
  | .schedule .. | .cancel _ | .takeDue _ | .reach _ => true
  | .newDebouncer .. | .callDebouncer .. | .takeCall _ | .releaseDebouncer _ => true
  | .newPeriodic .. | .startPeriodic _ | .clearPeriodic _ => true
  | .takeTick _ | .rearm _ | .releasePeriodic _ => true
  | _ => false

namespace Backend

/-- The other acts leave timers, debouncers and periodic tasks alone. -/
theorem timing_apply {a : Act Code Store} (ha : a.isOfTiming = false) (b : Backend Code Store) :
    (a.apply b).timing = b.timing := by
  cases a with
  | schedule | cancel | takeDue | reach | newDebouncer | callDebouncer | takeCall | releaseDebouncer => cases ha
  | newPeriodic | startPeriodic | clearPeriodic | takeTick | rearm | releasePeriodic => cases ha
  | sendRaw s text => exact timing_sendRaw b s text
  | send s m => exact timing_send b s m
  | close s => exact timing_close b s
  | enter s held => exact timing_enter b s held
  | exit guard => exact timing_exit b guard
  | leave guard => exact timing_leaveNumber b guard
  | addWrapper s name source => exact timing_addWrapper b s name source
  | removeWrapper s name exitNow => exact timing_removeWrapper b s name exitNow
  | enroll s kind definition => exact timing_enroll b s kind definition
  | abandon c => exact timing_destroy b c
  | destroy c => exact timing_destroy b c
  | change c changes options => exact timing_change b c changes options
  | openBatch c holder options => exact timing_openBatch b c holder options
  | beginBatch c options => exact timing_beginBatch b c options
  | commit c holder => exact timing_commit b c holder
  | drop c holder => exact timing_drop b c holder
  | listen c fields code => exact timing_listen b c fields code
  | unlisten c id => exact timing_unlisten b c id
  -- the rest changes the store, the trace, components, sessions or instances and nothing else
  | _ => rfl

/-! ## timers in order -/

/-- Timers are in order. Debouncers are numbered one after another, and a timer that was set for a debouncer is
the timer of none of the periodic tasks. -/
structure Regular (b : Backend Code Store) : Prop where
  orderly : b.clock.Orderly []
  numbered : ∀ d ∈ b.debouncers.keys, d < b.debouncers.size
  known : ∀ t ∈ b.clock.pending, ∀ d, t.job = .debounced d → d ∈ b.debouncers.keys
  apart : ∀ p k id, b.periodics.get? p = some k → k.timer = some id →
    id < b.clock.nextId ∧ ∀ t ∈ b.clock.pending, t.id = id → ∀ d, t.job ≠ .debounced d

theorem regular_init (store : Store) : Regular (init store : Backend Code Store) where
  orderly := Clock.orderly_init
  numbered _ hd := absurd hd List.not_mem_nil
  known _ ht := absurd ht List.not_mem_nil
  apart _ _ _ hk := by cases hk

namespace Regular

variable {b b' : Backend Code Store} (h : b.Regular)

include h

theorem of_timing (same : b'.timing = b.timing) : b'.Regular := by
  have hclock : b'.clock = b.clock := congrArg (·.1) same
  have hdebouncers : b'.debouncers = b.debouncers := congrArg (·.2.1) same
  have hperiodics : b'.periodics = b.periodics := congrArg (·.2.2) same
  exact ⟨hclock ▸ h.orderly, hdebouncers ▸ h.numbered, hclock ▸ hdebouncers ▸ h.known,
    hclock ▸ hperiodics ▸ h.apart⟩

/-- A change of the clock by which there may come new timers, for debouncers that are there. -/
theorem withClock {clock : Clock (Job Code)} (orderly : clock.Orderly []) (later : b.clock.nextId ≤ clock.nextId)
    (pending : ∀ t ∈ clock.pending, t ∈ b.clock.pending ∨
      b.clock.nextId ≤ t.id ∧ ∀ d, t.job = .debounced d → d ∈ b.debouncers.keys) :
    Regular { b with clock := clock } where
  orderly := orderly
  numbered := h.numbered
  known t ht := (pending t ht).elim (h.known t) And.right
  apart p k id hk hid := by
    obtain ⟨hlt, hothers⟩ := h.apart p k id hk hid
    refine ⟨Nat.lt_of_lt_of_le hlt later, fun t ht heq => ?_⟩
    obtain hold | ⟨hnew, -⟩ := pending t ht
    · exact hothers t hold heq
    · exact absurd (Nat.lt_of_lt_of_le hlt hnew) (heq ▸ Nat.lt_irrefl _)

theorem schedule (delay : Nat) {job : Job Code} (known : ∀ d, job = .debounced d → d ∈ b.debouncers.keys) :
    (b.schedule delay job).2.Regular := by
  refine h.withClock (h.orderly.schedule delay job) (Nat.le_succ _) fun t ht => ?_
  obtain rfl | ht := Clock.mem_schedule.1 ht
  · exact .inr ⟨Nat.le_refl _, known⟩
  · exact .inl ht

theorem cancel (id : TimerId) : (b.cancel id).2.Regular :=
  h.withClock (h.orderly.cancel id) (Nat.le_refl _) fun _ ht => .inl (Clock.mem_cancel.1 ht).1

theorem takeDue (target : Nat) : (b.takeDue target).2.Regular := by
  unfold Backend.takeDue
  split
  · exact h
  · next t clock hdue =>
    obtain ⟨-, hpending, hclock⟩ := Clock.takeDue?_eq_some hdue
    refine h.withClock (h.orderly.takeDue hdue).forget (Nat.le_of_eq (by rw [hclock])) fun t ht => .inl ?_
    rw [hpending]
    exact List.mem_cons_of_mem _ ht

theorem reach {target : Nat} (due : b.clock.takeDue? target = none) : (b.reach target).Regular :=
  h.withClock (h.orderly.reach due fun _ ht => absurd ht List.not_mem_nil) (Nat.le_refl _) fun _ ht => .inl ht

/-- A change of debouncers that leaves their numbers. -/
theorem withDebouncers {table : Table DebouncerId (Debouncer Code)} (keys : table.keys = b.debouncers.keys) :
    Regular { b with debouncers := table } where
  orderly := h.orderly
  numbered d hd := by
    have hsize : table.size = b.debouncers.size := by
      simpa [Table.keys, Table.size] using congrArg List.length keys
    rw [hsize]
    exact h.numbered d (keys ▸ hd)
  known t ht d hjob := keys ▸ h.known t ht d hjob
  apart := h.apart

theorem newDebouncer (s : SessionId) (window : Nat) : (b.newDebouncer s window).2.Regular := by
  have hkeys : (b.newDebouncer s window).2.debouncers.keys = b.debouncers.keys ++ [b.debouncers.size] :=
    Table.keys_insert_of_not_mem (fun hmem => Nat.lt_irrefl _ (h.numbered _ hmem)) _
  have hsize : (b.newDebouncer s window).2.debouncers.size = b.debouncers.size + 1 := by
    simpa [Table.keys, Table.size] using congrArg List.length hkeys
  refine ⟨h.orderly, fun d hd => ?_, fun t ht d hjob => ?_, h.apart⟩
  · rw [hkeys, List.mem_append, List.mem_singleton] at hd
    rw [hsize]
    obtain hd | rfl := hd
    · exact Nat.lt_succ_of_lt (h.numbered d hd)
    · exact Nat.lt_succ_self _
  · rw [hkeys]
    exact List.mem_append_left _ (h.known t ht d hjob)

theorem callDebouncer (d : DebouncerId) (code : Code) : (b.callDebouncer d code).Regular := by
  unfold Backend.callDebouncer
  split
  · exact h
  · next debouncer hd =>
    have hmem := Table.mem_keys_of_get? hd
    have hkeys := Table.keys_insert_of_mem hmem { debouncer with pending := some code }
    have hcalled := h.withDebouncers hkeys
    dsimp only
    split
    · exact hcalled
    · refine hcalled.schedule _ fun d' hjob => ?_
      cases hjob
      exact hkeys ▸ hmem

theorem takeCall (d : DebouncerId) : (b.takeCall d).2.Regular := by
  unfold Backend.takeCall
  split
  · next hd => exact h.withDebouncers (Table.keys_insert_of_mem (Table.mem_keys_of_get? hd) _)
  · exact h

/-- A change of periodic tasks by which there come no new timers. -/
theorem withPeriodics {table : Table PeriodicId (Periodic Code)}
    (timers : ∀ p k id, table.get? p = some k → k.timer = some id →
      ∃ k', b.periodics.get? p = some k' ∧ k'.timer = some id) : Regular { b with periodics := table } where
  orderly := h.orderly
  numbered := h.numbered
  known := h.known
  apart p k id hk hid := by
    obtain ⟨k', hk', hid'⟩ := timers p k id hk hid
    exact h.apart p k' id hk' hid'

/-- A change of one periodic task that keeps its timer or takes it away. -/
theorem modifyPeriodic (p : PeriodicId) {f : Periodic Code → Periodic Code}
    (timer : ∀ k, (f k).timer = k.timer ∨ (f k).timer = none) : (b.modifyPeriodic p f).Regular := by
  refine h.withPeriodics fun p' k id hk hid => ?_
  rw [Table.get?_modify] at hk
  split at hk
  · next hp =>
    obtain ⟨k', hk', rfl⟩ := Option.map_eq_some_iff.1 hk
    refine ⟨k', hp ▸ hk', ?_⟩
    obtain hkept | hnone := timer k'
    · exact hkept ▸ hid
    · rw [hnone] at hid
      cases hid
  · exact ⟨k, hk, hid⟩

theorem newPeriodic (s : SessionId) (period : Nat) (code : Code) : (b.newPeriodic s period code).2.Regular := by
  refine h.withPeriodics fun p k id hk hid => ?_
  rw [Table.get?_insert] at hk
  split at hk
  · obtain rfl := Option.some.inj hk
    cases hid
  · exact ⟨k, hk, hid⟩

theorem disarm (p : PeriodicId) : (b.disarm p).Regular := by
  unfold Backend.disarm
  split
  · exact h
  · exact (h.modifyPeriodic p fun _ => .inr rfl).cancel _

theorem arm (p : PeriodicId) : (b.arm p).Regular := by
  unfold Backend.arm
  split
  · exact h
  · next periodic _ =>
    have hdisarmed := h.disarm p
    have hset : ((b.disarm p).schedule periodic.period (.tick p)).2.Regular := hdisarmed.schedule _ nofun
    refine ⟨hset.orderly, hset.numbered, hset.known, fun p' k id hk hid => ?_⟩
    change ((b.disarm p).periodics.modify p _).get? p' = some k at hk
    rw [Table.get?_modify] at hk
    split at hk
    · obtain ⟨k', -, rfl⟩ := Option.map_eq_some_iff.1 hk
      cases hid
      refine ⟨Nat.lt_succ_self _, fun t ht heq d hjob => ?_⟩
      obtain rfl | ht := Clock.mem_schedule.1 ht
      · cases hjob
      · exact absurd (hdisarmed.orderly.numbered t ht) (heq ▸ Nat.lt_irrefl _)
    · exact hset.apart p' k id hk hid

theorem takeTick (p : PeriodicId) : (b.takeTick p).2.Regular := by
  unfold Backend.takeTick
  split
  · exact h
  · split
    · exact h.modifyPeriodic p fun _ => .inr rfl
    · exact h

theorem rearm (p : PeriodicId) : (b.rearm p).Regular := by
  unfold Backend.rearm
  split
  · split
    · exact h.arm p
    · exact h
  · exact h

/-- Acts keep timers in order, if the clock is not moved beyond a timer, and timers are set for tasks. -/
theorem apply {a : Act Code Store} (reach : ∀ target, a = .reach target → b.clock.takeDue? target = none)
    (tasks : ∀ delay job, a = .schedule delay job → ∃ code, job = .task code) : (a.apply b).Regular := by
  cases ha : a.isOfTiming with
  | false => exact h.of_timing (timing_apply ha b)
  | true =>
      cases a with
      | schedule delay job =>
          obtain ⟨code, rfl⟩ := tasks delay job rfl
          exact h.schedule delay nofun
      | cancel id => exact h.cancel id
      | takeDue target => exact h.takeDue target
      | reach target => exact h.reach (reach target rfl)
      | newDebouncer s window => exact h.newDebouncer s window
      | callDebouncer d code => exact h.callDebouncer d code
      | takeCall d => exact h.takeCall d
      | releaseDebouncer d => exact h.withDebouncers Table.keys_modify
      | newPeriodic s period code => exact h.newPeriodic s period code
      | startPeriodic p =>
          refine Regular.arm ?_ p
          exact h.modifyPeriodic p fun _ => .inl rfl
      | clearPeriodic p =>
          refine Regular.disarm ?_ p
          exact h.modifyPeriodic p fun _ => .inl rfl
      | takeTick p => exact h.takeTick p
      | rearm p => exact h.rearm p
      | releasePeriodic p => exact h.modifyPeriodic p fun _ => .inl rfl
      | _ => cases ha

end Regular

/-- In a course that is timely the timers are in order at every point. -/
theorem regular_play {fires : Job Code → Backend Code Store → List (Act Code Store) → Prop}
    {fired : Option (Job Code)} {b : Backend Code Store} {acts : List (Act Code Store)}
    (timely : Timely fires fired b acts) (regular : b.Regular) {q : List (Act Code Store)} (hq : q <+: acts) :
    (b.play q).Regular := by
  refine play_induction (b := b) (I := fun _ b' => b'.Regular) regular (fun pre a hpre h => ?_) hq
  exact h.apply (fun target ha => timely.reach pre target (ha ▸ hpre)) fun delay job ha =>
    timely.tasks delay job (ha ▸ hpre.subset List.mem_concat_self)

end Backend

end ViewSync
