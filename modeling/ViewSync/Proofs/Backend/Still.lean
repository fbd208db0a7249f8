import ViewSync.Backend.Act

/-!
# ViewSync.Proofs.Backend.Still

What can be told of a state from its components, its sessions and the messages that it sent, and the acts
that leave all of that as it is.

* `SameParts` — the same components, in the same places, and the same views known;
* `Still` — the same parts, nothing sent and no session opened again;
* `still_apply` — most acts are still: those of wrappers, activations, timers and the program's own state.
-/

namespace ViewSync

variable {Code Store : Type}

/-! ## messages -/

/-- The message that an event puts on the channel of a session. -/
def Event.messageTo? (s : SessionId) : Event → Option Message
  | .sent s' m => if s' = s then some m else none
  | _ => none

namespace Backend

/-- The messages that the channel of a session accepted, in order. -/
def sentTo (b : Backend Code Store) (s : SessionId) : List Message :=
  b.trace.filterMap (Event.messageTo? s)

/-- Whether there is a session of the given number. -/
def hasSession (b : Backend Code Store) (s : SessionId) : Bool :=
  b.sessions.contains s

@[simp] theorem sentTo_record_sent (b : Backend Code Store) (s s' : SessionId) (m : Message) :
    (b.record (.sent s m)).sentTo s' = b.sentTo s' ++ if s = s' then [m] else [] := by
  by_cases h : s = s' <;> simp [record, sentTo, Event.messageTo?, h]

/-! ## sessions -/

theorem session_of_not_hasSession {b : Backend Code Store} {s : SessionId}
    (h : b.hasSession s = false) : b.session s = noSession := by
  rw [hasSession, Table.contains_eq_isSome, Option.isSome_eq_false_iff,
    Option.isNone_iff_eq_none] at h
  rw [session, h]
  rfl

theorem hasSession_of_not_isClosed {b : Backend Code Store} {s : SessionId}
    (h : (b.session s).isClosed = false) : b.hasSession s = true := by
  cases hs : b.hasSession s with
  | true => rfl
  | false =>
      rw [session_of_not_hasSession hs] at h
      cases h

theorem session_modifySession (b : Backend Code Store) (s s' : SessionId) (f : Session → Session) :
    (b.modifySession s f).session s' =
      if s' = s ∧ b.hasSession s = true then f (b.session s) else b.session s' := by
  simp only [session, modifySession, hasSession, Table.contains_eq_isSome, Table.get?_modify]
  by_cases h : s' = s
  · cases hs : b.sessions.get? s <;> simp [h, hs]
  · simp [h]

/-- What a change of a session keeps of each session is kept of the sessions of the state. -/
theorem session_modifySession_of {γ : Type} {b : Backend Code Store} {s : SessionId}
    {f : Session → Session} (g : Session → γ) (h : ∀ x, g (f x) = g x) (s' : SessionId) :
    g ((b.modifySession s f).session s') = g (b.session s') := by
  rw [session_modifySession]
  split
  · next hs => rw [h, hs.1]
  · rfl

@[simp] theorem hasSession_modifySession (b : Backend Code Store) (s s' : SessionId)
    (f : Session → Session) : (b.modifySession s f).hasSession s' = b.hasSession s' :=
  Table.contains_modify

/-! ## the same parts -/

/-- Two states with the same components, in the same arenas, and with the same views known. -/
structure SameParts (b b' : Backend Code Store) : Prop where
  components : ∀ c, b'.component? c = b.component? c
  nextComponent : b'.nextComponent = b.nextComponent
  nextSession : b'.nextSession = b.nextSession
  hasSession : ∀ s, b'.hasSession s = b.hasSession s
  arena : ∀ s, (b'.session s).arena = (b.session s).arena
  views : ∀ s, (b'.session s).views = (b.session s).views

/-- The second state has the parts of the first one, sent nothing more and opened no session again. -/
structure Still (b b' : Backend Code Store) : Prop extends SameParts b b' where
  sent : ∀ s, b'.sentTo s = b.sentTo s
  closed : ∀ s, (b.session s).isClosed = true → (b'.session s).isClosed = true

/-- A change of anything but components and sessions keeps the parts. -/
theorem SameParts.of_eq {b b' : Backend Code Store} (components : b'.components = b.components)
    (sessions : b'.sessions = b.sessions) (nextComponent : b'.nextComponent = b.nextComponent)
    (nextSession : b'.nextSession = b.nextSession) : SameParts b b' where
  components c := by rw [component?, component?, components]
  nextComponent := nextComponent
  nextSession := nextSession
  hasSession s := by rw [Backend.hasSession, Backend.hasSession, sessions]
  arena s := by rw [session, session, sessions]
  views s := by rw [session, session, sessions]

theorem SameParts.trans {b b' b'' : Backend Code Store} (h : SameParts b b') (h' : SameParts b' b'') :
    SameParts b b'' where
  components c := (h'.components c).trans (h.components c)
  nextComponent := h'.nextComponent.trans h.nextComponent
  nextSession := h'.nextSession.trans h.nextSession
  hasSession s := (h'.hasSession s).trans (h.hasSession s)
  arena s := (h'.arena s).trans (h.arena s)
  views s := (h'.views s).trans (h.views s)

theorem SameParts.modifySession (b : Backend Code Store) (s : SessionId) {f : Session → Session}
    (arena : ∀ x, (f x).arena = x.arena) (views : ∀ x, (f x).views = x.views) :
    SameParts b (b.modifySession s f) where
  components _ := rfl
  nextComponent := rfl
  nextSession := rfl
  hasSession := fun s' => hasSession_modifySession b s s' f
  arena := session_modifySession_of (·.arena) arena
  views := session_modifySession_of (·.views) views

namespace Still

theorem refl (b : Backend Code Store) : Still b b :=
  ⟨⟨fun _ => rfl, rfl, rfl, fun _ => rfl, fun _ => rfl, fun _ => rfl⟩, fun _ => rfl, fun _ => id⟩

theorem trans {b b' b'' : Backend Code Store} (h : Still b b') (h' : Still b' b'') : Still b b'' where
  toSameParts := h.toSameParts.trans h'.toSameParts
  sent s := (h'.sent s).trans (h.sent s)
  closed s hs := h'.closed s (h.closed s hs)

/-- A change of anything but components, sessions and the trace is still. -/
theorem of_eq {b b' : Backend Code Store} (components : b'.components = b.components)
    (sessions : b'.sessions = b.sessions) (nextComponent : b'.nextComponent = b.nextComponent)
    (nextSession : b'.nextSession = b.nextSession) (trace : b'.trace = b.trace) : Still b b' where
  toSameParts := .of_eq components sessions nextComponent nextSession
  sent s := by rw [sentTo, sentTo, trace]
  closed s h := by rwa [session, sessions]

/-- A change of a session is still when it keeps the arena and the views and does not open the session. -/
theorem modifySession {b b₁ : Backend Code Store} (h : Still b b₁) {s : SessionId}
    {f : Session → Session} (arena : ∀ x, (f x).arena = x.arena) (views : ∀ x, (f x).views = x.views)
    (closed : (b₁.session s).isClosed = true → (f (b₁.session s)).isClosed = true) :
    Still b (b₁.modifySession s f) :=
  h.trans {
    toSameParts := .modifySession b₁ s arena views
    sent := fun _ => rfl
    closed := fun s' hs' => by
      rw [session_modifySession]
      split
      · next hs => exact closed (hs.1 ▸ hs')
      · exact hs' }

/-- An event that is no message is still. -/
theorem record {b b₁ : Backend Code Store} (h : Still b b₁) {e : Event}
    (he : ∀ s, e.messageTo? s = none) : Still b (b₁.record e) :=
  h.trans {
    toSameParts := .of_eq rfl rfl rfl rfl
    sent := fun s => by simp [Backend.record, sentTo, he s]
    closed := fun _ => id }

/-- A fold of still steps is still. -/
theorem foldl {γ : Type} {f : Backend Code Store → γ → Backend Code Store}
    (step : ∀ b b₁ x, Still b b₁ → Still b (f b₁ x)) {b b₁ : Backend Code Store} (h : Still b b₁)
    (xs : List γ) : Still b (xs.foldl f b₁) := by
  induction xs generalizing b₁ with
  | nil => exact h
  | cons x xs ih => exact ih (step b b₁ x h)

/-! ## wrappers and activations -/

variable {b b₁ : Backend Code Store} (h : Still b b₁)

include h

theorem enterInstance (s : SessionId) (name : String) (instance_ : InstanceId) :
    Still b (b₁.enterInstance s name instance_) := by
  unfold Backend.enterInstance
  refine record ?_ fun _ => rfl
  exact h.trans (.of_eq rfl rfl rfl rfl rfl)

theorem exitInstance (s : SessionId) (name : String) (instance_ : InstanceId) :
    Still b (b₁.exitInstance s name instance_) := by
  unfold Backend.exitInstance
  exact h.record fun _ => rfl

theorem instanceOf (source : WrapperSource) : Still b (b₁.instanceOf source).2 := by
  cases source with
  | ready instance_ => exact h
  | factory label =>
      unfold Backend.instanceOf
      refine record ?_ fun _ => rfl
      exact h.trans (.of_eq rfl rfl rfl rfl rfl)

theorem releaseNamed (s : SessionId) (name : String) : Still b (b₁.releaseNamed s name) := by
  unfold Backend.releaseNamed
  split
  · exact h
  · refine exitInstance ?_ s name _
    exact h.modifySession (fun _ => rfl) (fun _ => rfl) id

theorem engage (s : SessionId) (name : String) (source : WrapperSource) :
    Still b (b₁.engage s name source) := by
  have hready := instanceOf (h.releaseNamed s name) source
  unfold Backend.engage
  exact (hready.enterInstance s name _).modifySession (fun _ => rfl) (fun _ => rfl) id

theorem engageAll (s : SessionId) : Still b (b₁.engageAll s) := by
  unfold Backend.engageAll
  exact foldl (fun _ _ _ h => h.engage _ _ _) h _

theorem releaseAll (s : SessionId) : Still b (b₁.releaseAll s) := by
  unfold Backend.releaseAll
  refine foldl (fun _ _ _ h => h.exitInstance _ _ _) ?_ _
  exact h.modifySession (fun _ => rfl) (fun _ => rfl) id

theorem enter (s : SessionId) (held : Bool) : Still b (b₁.enter s held).2 := by
  have hentered : Still b (b₁.modifySession s fun session =>
      { session with depth := (b₁.session s).depth + 1 }) :=
    h.modifySession (fun _ => rfl) (fun _ => rfl) id
  unfold Backend.enter
  dsimp only
  split
  · refine engageAll ?_ s
    exact hentered.trans (.of_eq rfl rfl rfl rfl rfl)
  · exact hentered.trans (.of_eq rfl rfl rfl rfl rfl)

theorem leave (guard : Guard) : Still b (b₁.leave guard) := by
  have hleft : Still b (b₁.modifySession guard.session fun session =>
      { session with depth := (b₁.session guard.session).depth - 1 }) :=
    h.modifySession (fun _ => rfl) (fun _ => rfl) id
  unfold Backend.leave
  dsimp only
  split
  · exact (hleft.releaseAll _).trans (.of_eq rfl rfl rfl rfl rfl)
  · exact hleft.trans (.of_eq rfl rfl rfl rfl rfl)

theorem leaveNumber (guard : GuardId) : Still b (b₁.leaveNumber guard) := by
  unfold Backend.leaveNumber
  split
  · exact h.leave _
  · exact h

theorem exit (guard : GuardId) : Still b (b₁.exit guard) := by
  unfold Backend.exit
  split
  · split
    · exact h.leave _
    · exact h
  · exact h

theorem addWrapper (s : SessionId) (name : String) (source : WrapperSource) :
    Still b (b₁.afterTry (b₁.addWrapper s name source)) := by
  unfold Backend.addWrapper
  dsimp only
  split
  · exact h
  · have hadded : Still b (b₁.modifySession s fun session =>
        { session with wrappers := session.wrappers.insert name source }) :=
      h.modifySession (fun _ => rfl) (fun _ => rfl) id
    dsimp only [afterTry]
    split
    · exact hadded.engage s name source
    · exact hadded

theorem removeWrapper (s : SessionId) (name : String) (exitNow : Bool) :
    Still b (b₁.afterTry (b₁.removeWrapper s name exitNow)) := by
  unfold Backend.removeWrapper
  split
  · have hremoved : Still b (b₁.modifySession s fun session =>
        { session with wrappers := session.wrappers.erase name }) :=
      h.modifySession (fun _ => rfl) (fun _ => rfl) id
    dsimp only [afterTry]
    split
    · exact hremoved.releaseNamed s name
    · exact hremoved
  · exact h

/-! ## channels -/

theorem closeChannel (s : SessionId) : Still b (b₁.closeChannel s) := by
  refine h.modifySession (fun _ => rfl) (fun _ => rfl) fun _ => ?_
  simp [Session.isClosed]

theorem takeFrames (s : SessionId) : Still b (b₁.takeFrames s).2 :=
  h.modifySession (fun _ => rfl) (fun _ => rfl) id

theorem sendRaw (s : SessionId) (text : String) : Still b (b₁.sendRaw s text).2 := by
  unfold Backend.sendRaw
  split
  · exact h
  · next channel haccept =>
    refine h.modifySession (fun _ => rfl) (fun _ => rfl) fun hclosed => ?_
    -- a channel that accepts a frame stays as open or closed as it was
    unfold Channel.accept? at haccept
    split at haccept
    · cases haccept
    · cases haccept
      exact hclosed

/-! ## timers -/

theorem takeDue (target : Nat) : Still b (b₁.takeDue target).2 := by
  unfold Backend.takeDue
  split
  · exact h
  · exact h.trans (.of_eq rfl rfl rfl rfl rfl)

theorem callDebouncer (d : DebouncerId) (code : Code) : Still b (b₁.callDebouncer d code) := by
  unfold Backend.callDebouncer
  split
  · exact h
  · dsimp only
    split
    · exact h.trans (.of_eq rfl rfl rfl rfl rfl)
    · exact h.trans (.of_eq rfl rfl rfl rfl rfl)

theorem takeCall (d : DebouncerId) : Still b (b₁.takeCall d).2 := by
  unfold Backend.takeCall
  split
  · exact h.trans (.of_eq rfl rfl rfl rfl rfl)
  · exact h

theorem disarm (p : PeriodicId) : Still b (b₁.disarm p) := by
  unfold Backend.disarm
  split
  · exact h
  · exact h.trans (.of_eq rfl rfl rfl rfl rfl)

theorem arm (p : PeriodicId) : Still b (b₁.arm p) := by
  unfold Backend.arm
  split
  · exact h
  · exact (h.disarm p).trans (.of_eq rfl rfl rfl rfl rfl)

theorem startPeriodic (p : PeriodicId) : Still b (b₁.startPeriodic p) := by
  unfold Backend.startPeriodic
  refine arm ?_ p
  exact h.trans (.of_eq rfl rfl rfl rfl rfl)

theorem clearPeriodic (p : PeriodicId) : Still b (b₁.clearPeriodic p) := by
  unfold Backend.clearPeriodic
  refine disarm ?_ p
  exact h.trans (.of_eq rfl rfl rfl rfl rfl)

theorem takeTick (p : PeriodicId) : Still b (b₁.takeTick p).2 := by
  unfold Backend.takeTick
  split
  · exact h
  · split
    · exact h.trans (.of_eq rfl rfl rfl rfl rfl)
    · exact h

theorem rearm (p : PeriodicId) : Still b (b₁.rearm p) := by
  unfold Backend.rearm
  split
  · split
    · exact h.arm p
    · exact h
  · exact h

end Still

end Backend

/-! ## still acts -/

/-- Whether an act leaves components, arenas, views and messages alone whatever the state is. -/
def Act.isStill : Act Code Store → Bool
  | .openSession .. | .send .. | .close _ => false
  | .enroll .. | .activate _ | .abandon _ | .destroy _ => false
  | .change .. | .openBatch .. | .beginBatch .. | .commit .. | .drop .. => false
  | .listen .. | .unlisten .. => false
  | _ => true

theorem still_apply {a : Act Code Store} (h : a.isStill = true) (b : Backend Code Store) :
    b.Still (a.apply b) := by
  have hb := Backend.Still.refl b
  cases a with
  | openSession | send | close | enroll | activate | abandon | destroy => cases h
  | change | openBatch | beginBatch | commit | drop | listen | unlisten => cases h
  | note entry => exact hb.record fun _ => rfl
  | releaseSession s => exact hb.modifySession (fun _ => rfl) (fun _ => rfl) id
  | closeChannel s => exact hb.closeChannel s
  | takeFrames s => exact hb.takeFrames s
  | sendRaw s text => exact hb.sendRaw s text
  | enter s held => exact hb.enter s held
  | exit guard => exact hb.exit guard
  | leave guard => exact hb.leaveNumber guard
  | addWrapper s name source => exact hb.addWrapper s name source
  | removeWrapper s name exitNow => exact hb.removeWrapper s name exitNow
  | showFailuresIn s c => exact hb.modifySession (fun _ => rfl) (fun _ => rfl) id
  | takeDue target => exact hb.takeDue target
  | callDebouncer d code => exact hb.callDebouncer d code
  | takeCall d => exact hb.takeCall d
  | startPeriodic p => exact hb.startPeriodic p
  | clearPeriodic p => exact hb.clearPeriodic p
  | takeTick p => exact hb.takeTick p
  | rearm p => exact hb.rearm p
  -- the rest changes the store, instances, debouncers, periodic tasks or the clock and nothing else
  | _ => exact .of_eq rfl rfl rfl rfl rfl

end ViewSync
