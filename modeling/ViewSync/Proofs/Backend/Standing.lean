import ViewSync.Proofs.Backend.Activation

/-!
# ViewSync.Proofs.Backend.Standing

Parts of sessions that acts leave alone. What is said of a session without its activations and wrappers no
activation changes (`session_enter_of`, `session_leaveNumber_of`); and what is said of it by its
configuration and the component in which it shows failures only three acts change, which open or close a
session or give it such a component (`session_apply_of`).

The end of an activation undoes its beginning (`Settled.leave`), so an operation that activates a session
leaves its activations and wrappers as they were.
-/

namespace ViewSync

variable {Code Store γ : Type}

/-! ## parts of a session -/

/-- What is said of a session without its activations and wrappers. -/
def Session.Inactive (g : Session → γ) : Prop :=
  ∀ x depth wrappers engaged, g { x with depth := depth, wrappers := wrappers, engaged := engaged } = g x

/-- What is said of a session without what changes while it is open and in use. -/
structure Session.Standing (g : Session → γ) : Prop where
  inactive : Session.Inactive g
  channel : ∀ x channel, g { x with channel := channel } = g x
  closed : ∀ x closed, g { x with closed := closed } = g x
  arena : ∀ x arena, g { x with arena := arena } = g x
  views : ∀ x views, g { x with views := views } = g x
  held : ∀ x held, g { x with held := held } = g x

theorem Session.standing_config : Standing (·.config) where
  inactive _ _ _ _ := rfl
  channel _ _ := rfl
  closed _ _ := rfl
  arena _ _ := rfl
  views _ _ := rfl
  held _ _ := rfl

theorem Session.standing_diagnostic : Standing (·.diagnostic) where
  inactive _ _ _ _ := rfl
  channel _ _ := rfl
  closed _ _ := rfl
  arena _ _ := rfl
  views _ _ := rfl
  held _ _ := rfl

namespace Backend

variable {b b' : Backend Code Store} {g : Session → γ} {s : SessionId}

/-! ## activations and wrappers -/

theorem session_releaseNamed_of (h : Session.Inactive g) (s : SessionId) (name : String)
    (s' : SessionId) : g ((b.releaseNamed s name).session s') = g (b.session s') := by
  rw [session_releaseNamed]
  split
  · next hs =>
    rw [hs]
    exact h (b.session s) _ _ _
  · rfl

theorem session_engage_of (h : Session.Inactive g) (known : b.hasSession s = true) (name : String)
    (source : WrapperSource) (s' : SessionId) :
    g ((b.engage s name source).session s') = g (b.session s') := by
  rw [session_engage b known]
  split
  · next hs =>
    rw [hs]
    exact h (b.session s) _ _ _
  · rfl

theorem session_engageAll_of (h : Session.Inactive g) (s s' : SessionId) :
    g ((b.engageAll s).session s') = g (b.session s') := by
  cases hs : b.hasSession s with
  | false => rw [engageAll_of_not_hasSession hs]
  | true =>
      unfold engageAll
      generalize (b.session s).wrappers.entries = entries
      induction entries generalizing b with
      | nil => rfl
      | cons e entries ih =>
          have hknown : (b.engage s e.1 e.2).hasSession s = true :=
            (((Still.refl b).engage s e.1 e.2).hasSession s).trans hs
          exact (ih hknown).trans (session_engage_of h hs e.1 e.2 s')

theorem session_enter_of (h : Session.Inactive g) (s : SessionId) (held : Bool) (s' : SessionId) :
    g ((b.enter s held).2.session s') = g (b.session s') := by
  have hbegun : g ((b.begun s held).session s') = g (b.session s') := by
    rw [session_begun]
    split
    · next hs =>
      rw [hs.1]
      exact h (b.session s) _ _ _
    · rfl
  rw [enter_eq]
  split
  · exact (session_engageAll_of h s s').trans hbegun
  · exact hbegun

theorem session_leave_of (h : Session.Inactive g) (guard : Guard) (s : SessionId) :
    g ((b.leave guard).session s) = g (b.session s) := by
  have hless : g ((b.lessDeep guard.session).session s) = g (b.session s) := by
    rw [session_lessDeep]
    split
    · next hs =>
      rw [hs.1]
      exact h (b.session guard.session) _ _ _
    · rfl
  rw [leave_eq]
  show g ((b.released guard.session).session s) = _
  unfold released
  split
  · obtain ⟨-, -, -, -, -, hsession, -⟩ := (b.lessDeep guard.session).releaseAll_eq guard.session
    rw [hsession]
    refine (session_modifySession_of g (fun x => ?_) s).trans hless
    exact h x _ _ _
  · exact hless

theorem session_leaveNumber_of (h : Session.Inactive g) (id : GuardId) (s : SessionId) :
    g ((b.leaveNumber id).session s) = g (b.session s) := by
  obtain heq | ⟨guard, -, heq⟩ := b.leaveNumber_cases id
  · rw [heq]
  · rw [heq, session_leave_of h]

theorem session_exit_of (h : Session.Inactive g) (id : GuardId) (s : SessionId) :
    g ((b.exit id).session s) = g (b.session s) := by
  obtain heq | ⟨guard, -, heq⟩ := b.exit_cases id
  · rw [heq]
  · rw [heq, session_leave_of h]

theorem session_rearranged_of (h : Session.Inactive g) (s : SessionId)
    (f : Table String WrapperSource → Table String WrapperSource) (s' : SessionId) :
    g ((b.rearranged s f).session s') = g (b.session s') := by
  refine session_modifySession_of g (fun x => ?_) s'
  exact h x _ _ _

theorem session_addWrapper_of (h : Session.Inactive g) (s : SessionId) (name : String)
    (source : WrapperSource) (s' : SessionId) :
    g ((b.afterTry (b.addWrapper s name source)).session s') = g (b.session s') := by
  have hadded := session_rearranged_of (b := b) h s (·.insert name source) s'
  unfold addWrapper
  dsimp only
  split
  · rfl
  · dsimp only [afterTry]
    split
    · next hactive =>
      have hknown : (b.rearranged s (·.insert name source)).hasSession s = true :=
        (hasSession_modifySession b s s _).trans (hasSession_of_active hactive)
      exact (session_engage_of h hknown name source s').trans hadded
    · exact hadded

theorem session_removeWrapper_of (h : Session.Inactive g) (s : SessionId) (name : String) (exitNow : Bool)
    (s' : SessionId) :
    g ((b.afterTry (b.removeWrapper s name exitNow)).session s') = g (b.session s') := by
  have hremoved := session_rearranged_of (b := b) h s (·.erase name) s'
  unfold removeWrapper
  split
  · dsimp only [afterTry]
    split
    · exact (session_releaseNamed_of h s name s').trans hremoved
    · exact hremoved
  · rfl

/-! ## messages -/

theorem session_sendFrom_of (h : Session.Standing g) (c : ComponentId) (m : Message) (s : SessionId) :
    g ((b.sendFrom c m).session s) = g (b.session s) := by
  unfold sendFrom
  split
  · exact session_send_of b g h.channel h.closed _ s m
  · rfl

theorem session_tell_of (h : Session.Standing g) (c : ComponentId) (component : Component Code)
    (d : Option (Delivery Code)) (s : SessionId) :
    g ((b.tell c component d).session s) = g (b.session s) := by
  cases d with
  | none => rfl
  | some d =>
      show g (((b.setComponent c component).forward c d).session s) = _
      unfold forward
      split
      · exact session_sendFrom_of (b := b.setComponent c component) h c _ s
      · rfl

theorem session_sendAll_of (h : Session.Standing g) (s : SessionId) (ms : List Message)
    (s' : SessionId) : g ((b.sendAll s ms).session s') = g (b.session s') := by
  induction ms generalizing b with
  | nil => rfl
  | cons m ms ih => exact ih.trans (session_send_of b g h.channel h.closed s s' m)

/-! ## the life of components -/

theorem session_enroll_of (h : Session.Standing g) (s : SessionId) (kind : Kind Code)
    (definition : ViewDefinition) (s' : SessionId) :
    g ((b.enroll s kind definition).2.session s') = g (b.session s') := by
  obtain ⟨e, heq⟩ | ⟨-, -, heq⟩ := b.enroll_cases s kind definition
  · rw [heq]
    rfl
  · have hjoined : ∀ x arena views, g { x with arena := arena, views := views } = g x := by
      intro x arena views
      exact (h.views { x with arena := arena } views).trans (h.arena x arena)
    rw [heq]
    refine (session_sendAll_of h s _ s').trans ?_
    rw [session_join]
    split
    · next hs =>
      rw [hs.1]
      exact hjoined (b.session s) _ _
    · rfl

theorem session_destroy_of (h : Session.Standing g) (c : ComponentId) (s : SessionId) :
    g ((b.afterTry (b.destroy c)).session s) = g (b.session s) := by
  unfold destroy
  split
  · rfl
  · next k _ =>
    split
    · rfl
    · refine (session_sendFrom_of h c _ s).trans ?_
      refine session_modifySession_of (b := b.setComponent c k.retire) g (fun x => ?_) s
      exact h.arena x _

end Backend

/-! ## every act -/

/-- Whether an act leaves the configuration of sessions alone, and the components in which they show
failures. -/
def Act.isStanding : Act Code Store → Bool
  | .openSession .. | .close _ | .showFailuresIn .. => false
  | _ => true

namespace Backend

variable {b : Backend Code Store} {g : Session → γ}

theorem sessions_openBatch (b : Backend Code Store) (c : ComponentId) (holder : BatchHolder)
    (options : UpdateOptions) : (b.afterTry (b.openBatch c holder options)).sessions = b.sessions := by
  obtain ⟨e, h⟩ | ⟨k, -, -, -, h⟩ := b.openBatch_cases c holder options
  all_goals
    rw [h]
    rfl

theorem sessions_beginBatch (b : Backend Code Store) (c : ComponentId) (options : UpdateOptions) :
    (b.afterTry ((b.beginBatch c options).map (·.2))).sessions = b.sessions := by
  unfold beginBatch
  obtain ⟨e, h⟩ | ⟨k, -, -, -, h⟩ := b.openBatch_cases c (.handle b.nextBatch) options
  all_goals
    rw [h]
    rfl

theorem sessions_disarm (b : Backend Code Store) (p : PeriodicId) : (b.disarm p).sessions = b.sessions := by
  unfold disarm
  split <;> rfl

theorem sessions_arm (b : Backend Code Store) (p : PeriodicId) : (b.arm p).sessions = b.sessions := by
  unfold arm
  split
  · rfl
  · exact sessions_disarm b p

/-- What is said of a session without what changes while it is open and in use stays. -/
theorem session_apply_of (h : Session.Standing g) {a : Act Code Store} (ha : a.isStanding = true)
    (s : SessionId) : g ((a.apply b).session s) = g (b.session s) := by
  have of_sessions : ∀ {b' : Backend Code Store}, b'.sessions = b.sessions →
      g (b'.session s) = g (b.session s) := by
    intro b' hsessions
    rw [session, session, hsessions]
  cases a with
  | openSession | close | showFailuresIn => cases ha
  | releaseSession s' => exact session_modifySession_of g (fun x => h.held x _) s
  | closeChannel s' => exact session_modifySession_of g (fun x => h.channel x _) s
  | takeFrames s' => exact session_modifySession_of g (fun x => h.channel x _) s
  | sendRaw s' text =>
      simp only [Act.apply, Backend.sendRaw]
      split
      · rfl
      · exact session_modifySession_of g (fun x => h.channel x _) s
  | send s' m => exact session_send_of b g h.channel h.closed s' s m
  | enter s' held => exact session_enter_of h.inactive s' held s
  | exit guard => exact session_exit_of h.inactive guard s
  | leave guard => exact session_leaveNumber_of h.inactive guard s
  | addWrapper s' name source => exact session_addWrapper_of h.inactive s' name source s
  | removeWrapper s' name exitNow => exact session_removeWrapper_of h.inactive s' name exitNow s
  | enroll s' kind definition => exact session_enroll_of h s' kind definition s
  | abandon c => exact session_destroy_of h c s
  | destroy c => exact session_destroy_of h c s
  | change c changes options =>
      simp only [Act.apply, Backend.change]
      split
      · rfl
      · next k _ =>
        cases k.write c changes options with
        | error e => rfl
        | ok written => exact session_tell_of h c written.1 written.2 s
  | commit c holder =>
      simp only [Act.apply, Backend.commit]
      split
      · rfl
      · exact session_tell_of h c _ _ s
  | openBatch c holder options => exact of_sessions (sessions_openBatch b c holder options)
  | beginBatch c options => exact of_sessions (sessions_beginBatch b c options)
  | drop c holder =>
      refine of_sessions ?_
      simp only [Act.apply, Backend.drop]
      split <;> rfl
  | listen c fields code =>
      refine of_sessions ?_
      simp only [Act.apply, Backend.listen]
      split <;> rfl
  | unlisten c id =>
      refine of_sessions ?_
      simp only [Act.apply, Backend.unlisten]
      split <;> rfl
  | takeDue target =>
      refine of_sessions ?_
      simp only [Act.apply, Backend.takeDue]
      split <;> rfl
  | callDebouncer d code =>
      refine of_sessions ?_
      simp only [Act.apply, Backend.callDebouncer]
      split
      · rfl
      · split <;> rfl
  | takeCall d =>
      refine of_sessions ?_
      simp only [Act.apply, Backend.takeCall]
      split <;> rfl
  | startPeriodic p => exact of_sessions (sessions_arm (b.modifyPeriodic p _) p)
  | clearPeriodic p => exact of_sessions (sessions_disarm (b.modifyPeriodic p _) p)
  | takeTick p =>
      refine of_sessions ?_
      simp only [Act.apply, Backend.takeTick]
      split
      · rfl
      · split <;> rfl
  | rearm p =>
      refine of_sessions ?_
      simp only [Act.apply, Backend.rearm]
      split
      · split
        · exact sessions_arm b p
        · rfl
      · rfl
  -- the rest changes the store, components, instances, debouncers, periodic tasks, the clock or the trace
  | _ => exact of_sessions rfl

/-! ## activations that have ended -/

/-- The second state has the activations of the first one, the same sessions are active, and the same
wrappers are engaged. Numbers of activations may have been used up. -/
structure Settled (b b' : Backend Code Store) : Prop where
  guards : b'.guards = b.guards
  stack : b'.stack = b.stack
  nextGuard : b.nextGuard ≤ b'.nextGuard
  depth : ∀ s, (b'.session s).depth = (b.session s).depth
  engaged : ∀ s, (b'.session s).engaged = (b.session s).engaged

theorem SameActivity.settled {b b' : Backend Code Store} (h : SameActivity b b') : Settled b b' :=
  ⟨h.guards, h.stack, Nat.le_of_eq h.nextGuard.symm, h.depth, h.engaged⟩

namespace Settled

theorem refl (b : Backend Code Store) : Settled b b := (SameActivity.refl b).settled

theorem trans {b b' b'' : Backend Code Store} (h : Settled b b') (h' : Settled b' b'') :
    Settled b b'' where
  guards := h'.guards.trans h.guards
  stack := h'.stack.trans h.stack
  nextGuard := Nat.le_trans h.nextGuard h'.nextGuard
  depth s := (h'.depth s).trans (h.depth s)
  engaged s := (h'.engaged s).trans (h.engaged s)

end Settled

/-- What is needed of a session for the end of an activation to undo its beginning. -/
structure Enterable (b : Backend Code Store) (s : SessionId) : Prop where
  known : b.hasSession s = true
  numbered : Numbered b
  idle : (b.session s).depth = 0 → (b.session s).engaged.entries = []

variable {b' : Backend Code Store} {s : SessionId}

theorem Enterable.settled (h : Enterable b s) (settled : Settled b b') (known : b'.hasSession s = true) :
    Enterable b' s where
  known := known
  numbered :=
    ⟨settled.guards ▸ h.numbered.nodup,
      fun guard hguard => Nat.lt_of_lt_of_le (h.numbered.lt guard (settled.guards ▸ hguard))
        settled.nextGuard⟩
  idle hidle := by
    rw [settled.engaged]
    exact h.idle ((settled.depth s).symm.trans hidle)

theorem depth_enter (known : b.hasSession s = true) (held : Bool) :
    ((b.enter s held).2.session s).depth = (b.session s).depth + 1 := by
  rw [(b.rewired_enter s held).depth, session_begun, if_pos ⟨rfl, known⟩]

theorem Enterable.enter (h : Enterable b s) (held : Bool) : Enterable (b.enter s held).2 s where
  known := (((Still.refl b).enter s held).hasSession s).trans h.known
  numbered := h.numbered.enter s held
  idle hidle := by
    rw [depth_enter h.known] at hidle
    cases hidle

section

variable (h : Enterable b s) (settled : Settled (b.enter s false).2 b')

include h settled

theorem Settled.depth_entered : (b'.session s).depth = (b.session s).depth + 1 :=
  (settled.depth s).trans (depth_enter h.known false)

theorem Settled.session_lessDeep : (b'.lessDeep s).session s = { b'.session s with depth := (b.session s).depth } := by
  have hdepth := settled.depth_entered h
  have hknown : b'.hasSession s = true := hasSession_of_active (by omega)
  rw [Backend.session_lessDeep, if_pos ⟨rfl, hknown⟩, hdepth, Nat.add_sub_cancel]

/-- The number of an activation is that of its guard, which is the last one. -/
theorem Settled.leaveNumber_eq : b'.leaveNumber b.nextGuard = b'.leave ⟨b.nextGuard, s, false⟩ ∧
    b'.guards.filter (fun guard => guard.id ≠ b.nextGuard) = b.guards := by
  have hguards : b'.guards = b.guards ++ [⟨b.nextGuard, s, false⟩] :=
    settled.guards.trans (b.rewired_enter s false).guards
  have hold : ∀ guard ∈ b.guards, guard.id ≠ b.nextGuard := fun guard hguard =>
    Nat.ne_of_lt (h.numbered.lt guard hguard)
  constructor
  · have hnone : b.guards.find? (·.id = b.nextGuard) = none := by
      rw [List.find?_eq_none]
      intro guard hguard
      simp [hold guard hguard]
    simp [leaveNumber, hguards, List.find?_append, hnone]
  · have hkept : b.guards.filter (fun guard => guard.id ≠ b.nextGuard) = b.guards := by
      rw [List.filter_eq_self]
      intro guard hguard
      simp [hold guard hguard]
    rw [hguards, List.filter_append, hkept]
    simp

/-- What an activation engaged is released with it, and nothing else. -/
theorem Settled.engaged_released : ((b'.released s).session s).engaged = (b.session s).engaged := by
  rw [released, settled.depth_entered h, Nat.add_sub_cancel]
  split
  · next hidle =>
    have hnone := ((b'.lessDeep s).releaseAll_eq s).1
    cases hengaged : (((b'.lessDeep s).releaseAll s).session s).engaged with
    | mk entries =>
        rw [hengaged] at hnone
        cases hbefore : (b.session s).engaged with
        | mk entries₀ =>
            have hnone₀ := h.idle hidle
            rw [hbefore] at hnone₀
            exact congrArg Table.mk (hnone.trans hnone₀.symm)
  · next hactive =>
    rw [settled.session_lessDeep h]
    refine (settled.engaged s).trans ?_
    rw [enter_eq, if_neg hactive, session_begun, if_pos ⟨rfl, h.known⟩]

/-- The end of an activation undoes its beginning, when the activations that began in between have ended. -/
theorem Settled.leave : Settled b (b'.leaveNumber b.nextGuard) := by
  have hentered := b.rewired_enter s false
  have hreleased := b'.rewired_released s
  have hnext : b.nextGuard ≤ b'.nextGuard :=
    Nat.le_trans (Nat.le_succ _)
      (Nat.le_trans (Nat.le_of_eq hentered.nextGuard.symm) settled.nextGuard)
  obtain ⟨hfound, hguards⟩ := settled.leaveNumber_eq h
  rw [hfound, leave_eq]
  refine ⟨?_, ?_, ?_, fun s' => ?_, fun s' => ?_⟩
  · show (b'.released s).guards.filter (fun guard => guard.id ≠ b.nextGuard) = b.guards
    rwa [show (b'.released s).guards = b'.guards from hreleased.guards]
  · show eraseLast s (b'.released s).stack = b.stack
    have hstack : (b'.released s).stack = b.stack ++ [s] :=
      hreleased.stack.trans (settled.stack.trans hentered.stack)
    rw [hstack]
    simp [eraseLast]
  · show b.nextGuard ≤ (b'.released s).nextGuard
    exact Nat.le_trans hnext (Nat.le_of_eq hreleased.nextGuard.symm)
  · show ((b'.released s).session s').depth = _
    by_cases hs : s' = s
    · rw [hs, hreleased.depth, settled.session_lessDeep h]
    · rw [(hreleased.elsewhere s' hs).1, Backend.session_lessDeep, if_neg fun hk => hs hk.1, settled.depth,
        (hentered.elsewhere s' hs).1, session_begun, if_neg fun hk => hs hk.1]
  · show ((b'.released s).session s').engaged = _
    by_cases hs : s' = s
    · rw [hs]
      exact settled.engaged_released h
    · rw [(hreleased.elsewhere s' hs).1, Backend.session_lessDeep, if_neg fun hk => hs hk.1, settled.engaged,
        (hentered.elsewhere s' hs).1, session_begun, if_neg fun hk => hs hk.1]

end

end Backend

/-- An operation that a session is activated for. -/
theorem Run.Does.inside {α : Type} {x : Run Code Store α} {b : Backend Code Store} {s : SessionId}
    {acts : List (Act Code Store)} {a : α} (h : x.Does (b.enter s false).2 acts a) :
    (Run.inside s x).Does b (.enter s false :: (acts ++ [.leave b.nextGuard])) a := by
  have hdone : (x.andThen fun ending => .act (.leave b.nextGuard) (.ended ending)).Does
      (b.enter s false).2 (acts ++ [.leave b.nextGuard]) a := h.andThen ⟨rfl, rfl⟩
  exact ⟨congrArg (Act.enter s false :: ·) hdone.acts_eq, hdone.ending_eq⟩

end ViewSync
