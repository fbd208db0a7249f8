import ViewSync.Proofs.Backend.Coherent
import ViewSync.Proofs.Backend.Wrappers

/-!
# ViewSync.Proofs.Backend.Activation

Activations of a session and the engagement of its wrappers, in every sequence of acts: sessions may be
activated inside each other, activations may end in any order, and wrappers may come and go meanwhile.

* `SameActivity` — the same activations and wrappers, and nothing seen of wrappers; most acts keep that;
* `Balanced` — the order of one session that every act keeps;
* `activation_balanced` — the depth of a session counts its activations, wrappers are engaged exactly
  while it is active, and the last activation to end releases them in the reverse of their order.
-/

namespace ViewSync

variable {Code Store : Type}

namespace Backend

/-! ## acts that leave activations alone -/

/-- The second state has the activations of the first one, the same sessions are active, with the same
wrappers, and no more was seen of wrappers. -/
structure SameActivity (b b' : Backend Code Store) : Prop where
  guards : b'.guards = b.guards
  stack : b'.stack = b.stack
  nextGuard : b'.nextGuard = b.nextGuard
  depth : ∀ s, (b'.session s).depth = (b.session s).depth
  wrappers : ∀ s, (b'.session s).wrappers = (b.session s).wrappers
  engaged : ∀ s, (b'.session s).engaged = (b.session s).engaged
  uses : ∀ s, b'.uses s = b.uses s

namespace SameActivity

theorem refl (b : Backend Code Store) : SameActivity b b :=
  ⟨rfl, rfl, rfl, fun _ => rfl, fun _ => rfl, fun _ => rfl, fun _ => rfl⟩

/-- A change of anything but activations, sessions and the trace. -/
theorem of_eq {b b₁ b₂ : Backend Code Store} (h : SameActivity b b₁) (guards : b₂.guards = b₁.guards)
    (stack : b₂.stack = b₁.stack) (nextGuard : b₂.nextGuard = b₁.nextGuard) (sessions : b₂.sessions = b₁.sessions)
    (trace : b₂.trace = b₁.trace) : SameActivity b b₂ where
  guards := guards.trans h.guards
  stack := stack.trans h.stack
  nextGuard := nextGuard.trans h.nextGuard
  depth s := by rw [session, sessions]; exact h.depth s
  wrappers s := by rw [session, sessions]; exact h.wrappers s
  engaged s := by rw [session, sessions]; exact h.engaged s
  uses s := by rw [Backend.uses, trace]; exact h.uses s

theorem modifySession {b b₁ : Backend Code Store} (h : SameActivity b b₁) (s : SessionId)
    {f : Session → Session} (depth : ∀ x, (f x).depth = x.depth)
    (wrappers : ∀ x, (f x).wrappers = x.wrappers) (engaged : ∀ x, (f x).engaged = x.engaged) :
    SameActivity b (b₁.modifySession s f) where
  guards := h.guards
  stack := h.stack
  nextGuard := h.nextGuard
  depth s' := (session_modifySession_of (·.depth) depth s').trans (h.depth s')
  wrappers s' := (session_modifySession_of (·.wrappers) wrappers s').trans (h.wrappers s')
  engaged s' := (session_modifySession_of (·.engaged) engaged s').trans (h.engaged s')
  uses := h.uses

/-- An event that shows no use of a wrapper. -/
theorem record {b b₁ : Backend Code Store} (h : SameActivity b b₁) {e : Event}
    (he : ∀ s, e.useIn? s = none) : SameActivity b (b₁.record e) :=
  { h with uses := fun s => by rw [uses_record, he, h.uses]; exact List.append_nil _ }

/-! ### operations -/

variable {b b₁ : Backend Code Store} (h : SameActivity b b₁)

include h

theorem send (s : SessionId) (m : Message) : SameActivity b (b₁.send s m) := by
  unfold Backend.send
  dsimp only
  split
  · exact h
  · split
    · refine record ?_ fun _ => rfl
      exact h.modifySession s (fun _ => rfl) (fun _ => rfl) fun _ => rfl
    · exact h.modifySession s (fun _ => rfl) (fun _ => rfl) fun _ => rfl

theorem sendFrom (c : ComponentId) (m : Message) : SameActivity b (b₁.sendFrom c m) := by
  unfold Backend.sendFrom
  split
  · exact h.send _ m
  · exact h

theorem tell (c : ComponentId) (component : Component Code) (d : Option (Delivery Code)) :
    SameActivity b (b₁.tell c component d) := by
  have hset : SameActivity b (b₁.setComponent c component) := h.of_eq rfl rfl rfl rfl rfl
  cases d with
  | none => exact hset
  | some d =>
      show SameActivity b ((b₁.setComponent c component).forward c d)
      unfold forward
      split
      · exact hset.sendFrom c _
      · exact hset

theorem sendRaw (s : SessionId) (text : String) : SameActivity b (b₁.sendRaw s text).2 := by
  unfold Backend.sendRaw
  split
  · exact h
  · exact h.modifySession s (fun _ => rfl) (fun _ => rfl) fun _ => rfl

theorem close (s : SessionId) : SameActivity b (b₁.close s) := by
  obtain ⟨components, heq⟩ := b₁.close_eq s
  rw [heq]
  have hclosed : SameActivity b (b₁.modifySession s fun session =>
      { session with closed := true, diagnostic := none, arena := [] }) :=
    h.modifySession s (fun _ => rfl) (fun _ => rfl) fun _ => rfl
  exact hclosed.of_eq rfl rfl rfl rfl rfl

theorem enroll (s : SessionId) (kind : Kind Code) (definition : ViewDefinition) :
    SameActivity b (b₁.enroll s kind definition).2 := by
  have hnumber : SameActivity b b₁.takeNumber := h.of_eq rfl rfl rfl rfl rfl
  have hset : SameActivity b (b₁.takeNumber.setComponent b₁.nextComponent (.new kind s)) :=
    hnumber.of_eq rfl rfl rfl rfl rfl
  have hjoined : SameActivity b (b₁.takeNumber.join s b₁.nextComponent kind definition) :=
    hset.modifySession s (fun _ => rfl) (fun _ => rfl) fun _ => rfl
  unfold Backend.enroll
  dsimp only
  split
  · exact hnumber
  · split
    · exact hnumber
    · split
      · exact hjoined.send s _
      · exact (hjoined.send s _).send s _

theorem destroy (c : ComponentId) : SameActivity b (b₁.afterTry (b₁.destroy c)) := by
  unfold Backend.destroy
  split
  · exact h
  · next k _ =>
    split
    · exact h
    · have hset : SameActivity b (b₁.setComponent c k.retire) := h.of_eq rfl rfl rfl rfl rfl
      have hforgotten : SameActivity b ((b₁.setComponent c k.retire).forget k.session c) :=
        hset.modifySession k.session (fun _ => rfl) (fun _ => rfl) fun _ => rfl
      exact hforgotten.sendFrom c _

theorem change (c : ComponentId) (changes : Fields) (options : UpdateOptions) :
    SameActivity b (b₁.afterTry ((b₁.change c changes options).map (·.2))) := by
  unfold Backend.change
  split
  · exact h
  · next k _ =>
    cases k.write c changes options with
    | error e => exact h
    | ok written => exact h.tell c written.1 written.2

theorem openBatch (c : ComponentId) (holder : BatchHolder) (options : UpdateOptions) :
    SameActivity b (b₁.afterTry (b₁.openBatch c holder options)) := by
  unfold Backend.openBatch
  split
  · exact h
  · next k _ =>
    cases k.openBatch c holder options with
    | error e => exact h
    | ok k' => exact h.of_eq rfl rfl rfl rfl rfl

theorem beginBatch (c : ComponentId) (options : UpdateOptions) :
    SameActivity b (b₁.afterTry ((b₁.beginBatch c options).map (·.2))) := by
  unfold Backend.beginBatch Backend.openBatch
  split
  · exact h
  · next k _ =>
    cases k.openBatch c (.handle b₁.nextBatch) options with
    | error e => exact h
    | ok k' => exact h.of_eq rfl rfl rfl rfl rfl

theorem commit (c : ComponentId) (holder : BatchHolder) : SameActivity b (b₁.commit c holder).2 := by
  unfold Backend.commit
  split
  · exact h
  · next k _ => exact h.tell c (k.closeBatch holder).1 (k.closeBatch holder).2

theorem drop (c : ComponentId) (holder : BatchHolder) : SameActivity b (b₁.drop c holder) := by
  unfold Backend.drop
  split
  · exact h
  · exact h.of_eq rfl rfl rfl rfl rfl

theorem listen (c : ComponentId) (fields : Option (List String)) (code : Code) :
    SameActivity b (b₁.listen c fields code).2 := by
  unfold Backend.listen
  split
  · exact h
  · exact h.of_eq rfl rfl rfl rfl rfl

theorem unlisten (c : ComponentId) (id : ListenerId) : SameActivity b (b₁.unlisten c id).2 := by
  unfold Backend.unlisten
  split
  · exact h
  · exact h.of_eq rfl rfl rfl rfl rfl

theorem takeDue (target : Nat) : SameActivity b (b₁.takeDue target).2 := by
  unfold Backend.takeDue
  split
  · exact h
  · exact h.of_eq rfl rfl rfl rfl rfl

theorem callDebouncer (d : DebouncerId) (code : Code) : SameActivity b (b₁.callDebouncer d code) := by
  unfold Backend.callDebouncer
  split
  · exact h
  · dsimp only
    split
    · exact h.of_eq rfl rfl rfl rfl rfl
    · exact h.of_eq rfl rfl rfl rfl rfl

theorem takeCall (d : DebouncerId) : SameActivity b (b₁.takeCall d).2 := by
  unfold Backend.takeCall
  split
  · exact h.of_eq rfl rfl rfl rfl rfl
  · exact h

theorem disarm (p : PeriodicId) : SameActivity b (b₁.disarm p) := by
  unfold Backend.disarm
  split
  · exact h
  · exact h.of_eq rfl rfl rfl rfl rfl

theorem arm (p : PeriodicId) : SameActivity b (b₁.arm p) := by
  unfold Backend.arm
  split
  · exact h
  · exact (h.disarm p).of_eq rfl rfl rfl rfl rfl

theorem takeTick (p : PeriodicId) : SameActivity b (b₁.takeTick p).2 := by
  unfold Backend.takeTick
  split
  · exact h
  · split
    · exact h.of_eq rfl rfl rfl rfl rfl
    · exact h

theorem rearm (p : PeriodicId) : SameActivity b (b₁.rearm p) := by
  unfold Backend.rearm
  split
  · split
    · exact h.arm p
    · exact h
  · exact h

omit h in
/-- A new session is idle and without wrappers, as one that is not there. -/
theorem openSession (coherent : Coherent b) (config : SessionConfig) (channel : Channel) :
    SameActivity b (b.openSession config channel).2 := by
  have hnew : b.session b.nextSession = noSession := by
    refine session_of_not_hasSession ?_
    cases hs : b.hasSession b.nextSession with
    | false => rfl
    | true => exact absurd (coherent.session_lt hs) (Nat.lt_irrefl _)
  refine ⟨rfl, rfl, rfl, fun s => ?_, fun s => ?_, fun s => ?_, fun _ => rfl⟩
  all_goals
    rw [session_openSession]
    split
    · next hs => rw [hs, hnew]; rfl
    · rfl

end SameActivity

end Backend

/-- Whether an act begins or ends an activation, or adds or removes a wrapper. -/
def Act.activates : Act Code Store → Bool
  | .enter .. | .exit _ | .leave _ => true
  | .addWrapper .. | .removeWrapper .. => true
  | _ => false

namespace Backend

variable {b b' : Backend Code Store} {a : Act Code Store} {s s' : SessionId}

theorem sameActivity_apply (coherent : Coherent b) (ha : a.activates = false) :
    SameActivity b (a.apply b) := by
  have hb := SameActivity.refl b
  cases a with
  | enter | exit | leave | addWrapper | removeWrapper => cases ha
  | note entry => exact hb.record fun _ => rfl
  | openSession config channel => exact .openSession coherent config channel
  | releaseSession s => exact hb.modifySession s (fun _ => rfl) (fun _ => rfl) fun _ => rfl
  | closeChannel s => exact hb.modifySession s (fun _ => rfl) (fun _ => rfl) fun _ => rfl
  | takeFrames s => exact hb.modifySession s (fun _ => rfl) (fun _ => rfl) fun _ => rfl
  | sendRaw s text => exact hb.sendRaw s text
  | send s m => exact hb.send s m
  | close s => exact hb.close s
  | enroll s kind definition => exact hb.enroll s kind definition
  | abandon c => exact hb.destroy c
  | destroy c => exact hb.destroy c
  | showFailuresIn s c => exact hb.modifySession s (fun _ => rfl) (fun _ => rfl) fun _ => rfl
  | change c changes options => exact hb.change c changes options
  | openBatch c holder options => exact hb.openBatch c holder options
  | beginBatch c options => exact hb.beginBatch c options
  | commit c holder => exact hb.commit c holder
  | drop c holder => exact hb.drop c holder
  | listen c fields code => exact hb.listen c fields code
  | unlisten c id => exact hb.unlisten c id
  | takeDue target => exact hb.takeDue target
  | callDebouncer d code => exact hb.callDebouncer d code
  | takeCall d => exact hb.takeCall d
  | startPeriodic p =>
      have hstarted : SameActivity b (b.modifyPeriodic p fun periodic =>
        { periodic with cleared := false }) := hb.of_eq rfl rfl rfl rfl rfl
      exact hstarted.arm p
  | clearPeriodic p =>
      have hcleared : SameActivity b (b.modifyPeriodic p fun periodic =>
        { periodic with cleared := true }) := hb.of_eq rfl rfl rfl rfl rfl
      exact hcleared.disarm p
  | takeTick p => exact hb.takeTick p
  | rearm p => exact hb.rearm p
  -- the rest changes the store, components, instances, debouncers, periodic tasks or the clock
  | _ => exact hb.of_eq rfl rfl rfl rfl rfl

/-! ## acts on activations -/

/-- A session that is active is there. -/
theorem hasSession_of_active {s : SessionId} (h : 0 < (b.session s).depth) : b.hasSession s = true := by
  cases hs : b.hasSession s with
  | true => rfl
  | false =>
      rw [session_of_not_hasSession hs] at h
      exact absurd h (Nat.lt_irrefl 0)

/-! ### activations begin and end -/

/-- An activation has begun, and nothing is engaged for it yet. -/
def begun (b : Backend Code Store) (s : SessionId) (held : Bool) : Backend Code Store :=
  { b.modifySession s fun session => { session with depth := (b.session s).depth + 1 } with
    guards := b.guards ++ [⟨b.nextGuard, s, held⟩]
    stack := b.stack ++ [s]
    nextGuard := b.nextGuard + 1 }

/-- The first activation engages the wrappers. -/
theorem enter_eq (b : Backend Code Store) (s : SessionId) (held : Bool) :
    (b.enter s held).2 =
      if (b.session s).depth = 0 then (b.begun s held).engageAll s else b.begun s held := rfl

theorem session_begun (b : Backend Code Store) (s s' : SessionId) (held : Bool) :
    (b.begun s held).session s' =
      if s' = s ∧ b.hasSession s = true then { b.session s with depth := (b.session s).depth + 1 }
      else b.session s' :=
  session_modifySession b s s' _

/-- A session that is not there has no wrappers to engage. -/
theorem engageAll_of_not_hasSession {s : SessionId} (h : b.hasSession s = false) :
    b.engageAll s = b := by
  rw [engageAll, session_of_not_hasSession h]
  rfl

/-- The beginning of an activation rewires its session at most. -/
theorem rewired_enter (b : Backend Code Store) (s : SessionId) (held : Bool) :
    Rewired s (b.begun s held) (b.enter s held).2 := by
  rw [enter_eq]
  split
  · cases hs : (b.begun s held).hasSession s with
    | false => rw [engageAll_of_not_hasSession hs]; exact .refl s _
    | true => exact (rewired_engageAll hs).1
  · exact .refl s _

/-- The depth of a session is one less. -/
def lessDeep (b : Backend Code Store) (s : SessionId) : Backend Code Store :=
  b.modifySession s fun session => { session with depth := (b.session s).depth - 1 }

/-- What has become of the session when an activation ends: the last one releases the wrappers. -/
def released (b : Backend Code Store) (s : SessionId) : Backend Code Store :=
  if (b.session s).depth - 1 = 0 then (b.lessDeep s).releaseAll s else b.lessDeep s

theorem leave_eq (b : Backend Code Store) (guard : Guard) :
    b.leave guard =
      { b.released guard.session with
        guards := (b.released guard.session).guards.filter (·.id ≠ guard.id)
        stack := eraseLast guard.session (b.released guard.session).stack } := rfl

theorem session_lessDeep (b : Backend Code Store) (s s' : SessionId) :
    (b.lessDeep s).session s' =
      if s' = s ∧ b.hasSession s = true then { b.session s with depth := (b.session s).depth - 1 }
      else b.session s' :=
  session_modifySession b s s' _

/-- The end of an activation rewires its session at most. -/
theorem rewired_released (b : Backend Code Store) (s : SessionId) :
    Rewired s (b.lessDeep s) (b.released s) := by
  unfold released
  split
  · exact rewired_releaseAll _ s
  · exact .refl s _

/-- The activation that `exit` ends is one that lasts. -/
theorem exit_cases (b : Backend Code Store) (id : GuardId) :
    b.exit id = b ∨ ∃ guard ∈ b.guards, b.exit id = b.leave guard := by
  unfold exit
  split
  · next guard hguard =>
    split
    · exact .inr ⟨guard, List.mem_of_find?_eq_some hguard, rfl⟩
    · exact .inl rfl
  · exact .inl rfl

/-- The activation that `leaveNumber` ends is one that lasts. -/
theorem leaveNumber_cases (b : Backend Code Store) (id : GuardId) :
    b.leaveNumber id = b ∨ ∃ guard ∈ b.guards, b.leaveNumber id = b.leave guard := by
  unfold leaveNumber
  split
  · next guard hguard => exact .inr ⟨guard, List.mem_of_find?_eq_some hguard, rfl⟩
  · exact .inl rfl

/-! ### wrappers come and go -/

/-- Other wrappers are registered in a session, and nothing is engaged or released for that yet. -/
def rearranged (b : Backend Code Store) (s : SessionId)
    (f : Table String WrapperSource → Table String WrapperSource) : Backend Code Store :=
  b.modifySession s fun session => { session with wrappers := f session.wrappers }

theorem depth_rearranged (b : Backend Code Store) (s s' : SessionId)
    (f : Table String WrapperSource → Table String WrapperSource) :
    ((b.rearranged s f).session s').depth = (b.session s').depth := by
  refine session_modifySession_of (·.depth) ?_ s'
  exact fun _ => rfl

theorem engaged_rearranged (b : Backend Code Store) (s s' : SessionId)
    (f : Table String WrapperSource → Table String WrapperSource) :
    ((b.rearranged s f).session s').engaged = (b.session s').engaged := by
  refine session_modifySession_of (·.engaged) ?_ s'
  exact fun _ => rfl

/-- What an act does to activations and wrappers. An act that registers or removes a wrapper engages and
releases so much that an active session has all its wrappers engaged, and an idle one none. -/
inductive Turn (b : Backend Code Store) : Act Code Store → Backend Code Store → Prop
  | same {a : Act Code Store} {b' : Backend Code Store} (same : SameActivity b b') : Turn b a b'
  | begun (s : SessionId) (held : Bool) : Turn b (.enter s held) (b.enter s held).2
  | ended {a : Act Code Store} {guard : Guard} (lasts : guard ∈ b.guards) : Turn b a (b.leave guard)
  | rearranged {a : Act Code Store} {b' : Backend Code Store} {s : SessionId}
      {f : Table String WrapperSource → Table String WrapperSource}
      (rewired : Rewired s (b.rearranged s f) b')
      (idle : (b.session s).depth = 0 → (b.session s).engaged.entries = [] →
        (b'.session s).engaged.entries = [])
      (active : 0 < (b.session s).depth →
        (∀ name ∈ (b.session s).wrappers.keys, name ∈ (b.session s).engaged.keys) →
        ∀ name ∈ (f (b.session s).wrappers).keys, name ∈ (b'.session s).engaged.keys) :
      Turn b a b'

theorem turn_addWrapper (s : SessionId) (name : String) (source : WrapperSource) :
    Turn b (.addWrapper s name source) (b.afterTry (b.addWrapper s name source)) := by
  unfold addWrapper
  dsimp only
  split
  · exact .same (.refl b)
  · next hnew =>
    have hkeys : ((b.session s).wrappers.insert name source).keys =
        (b.session s).wrappers.keys ++ [name] :=
      Table.keys_insert_of_not_mem (fun hmem => hnew (Table.contains_iff_mem_keys.2 hmem)) _
    show Turn b _ (if 0 < (b.session s).depth
      then (b.rearranged s (·.insert name source)).engage s name source
      else b.rearranged s (·.insert name source))
    split
    · next hactive =>
      have hknown : (b.rearranged s (·.insert name source)).hasSession s = true :=
        (hasSession_modifySession b s s _).trans (hasSession_of_active hactive)
      refine .rearranged (rewired_engage hknown name source) ?_ ?_
      · exact fun hidle => absurd hidle (Nat.ne_of_gt hactive)
      · intro _ hall name' hname'
        refine mem_engaged_engage hknown ?_
        rw [hkeys, List.mem_append, List.mem_singleton] at hname'
        rw [engaged_rearranged]
        exact hname'.symm.imp id (hall name')
    · next hidle =>
      refine .rearranged (.refl s _) ?_ fun hactive => absurd hactive hidle
      rw [engaged_rearranged]
      exact fun _ => id

theorem turn_removeWrapper (s : SessionId) (name : String) (exitNow : Bool) :
    Turn b (.removeWrapper s name exitNow) (b.afterTry (b.removeWrapper s name exitNow)) := by
  unfold removeWrapper
  split
  · show Turn b _ (if exitNow then (b.rearranged s (·.erase name)).releaseNamed s name
      else b.rearranged s (·.erase name))
    split
    · refine .rearranged (rewired_releaseNamed s name) ?_ ?_
      all_goals rw [session_releaseNamed, if_pos rfl, engaged_rearranged]
      · exact fun _ hnone => List.filter_eq_nil_iff.2 fun e he => by rw [hnone] at he; cases he
      · intro _ hall name' hname'
        obtain ⟨hmem, hne⟩ := Table.mem_keys_erase.1 hname'
        exact Table.mem_keys_erase.2 ⟨hall name' hmem, hne⟩
    · refine .rearranged (.refl s _) ?_ ?_
      all_goals rw [engaged_rearranged]
      · exact fun _ => id
      · exact fun _ hall name' hname' => hall name' (Table.mem_keys_erase.1 hname').1
  · exact .same (.refl b)

/-- Every act is a turn. -/
theorem turn_apply (coherent : Coherent b) (a : Act Code Store) : Turn b a (a.apply b) := by
  cases ha : a.activates with
  | false => exact .same (sameActivity_apply coherent ha)
  | true =>
      cases a with
      | enter s held => exact .begun s held
      | exit guard =>
          obtain heq | ⟨guard, lasts, heq⟩ := b.exit_cases guard
          · exact .same (by rw [Act.apply, heq]; exact .refl b)
          · rw [Act.apply, heq]
            exact .ended lasts
      | leave guard =>
          obtain heq | ⟨guard, lasts, heq⟩ := b.leaveNumber_cases guard
          · exact .same (by rw [Act.apply, heq]; exact .refl b)
          · rw [Act.apply, heq]
            exact .ended lasts
      | addWrapper s name source => exact turn_addWrapper s name source
      | removeWrapper s name exitNow => exact turn_removeWrapper s name exitNow
      | _ => cases ha

/-! ## the order of activations -/

/-- Activations have numbers of their own. -/
structure Numbered (b : Backend Code Store) : Prop where
  nodup : (b.guards.map (·.id)).Nodup
  lt : ∀ guard ∈ b.guards, guard.id < b.nextGuard

/-- The order of a session. Its depth counts its activations; while there is none no instance is engaged,
and while there is one every wrapper has an engaged instance. -/
structure Balanced (b : Backend Code Store) (s : SessionId) : Prop where
  depth : (b.session s).depth = b.guards.countP (·.session = s)
  idle : (b.session s).depth = 0 → (b.session s).engaged.entries = []
  active : 0 < (b.session s).depth →
    ∀ name ∈ (b.session s).wrappers.keys, name ∈ (b.session s).engaged.keys
  wired : Wired (b.session s).engaged.entries (b.uses s)

theorem numbered_init (store : Store) : Numbered (init store : Backend Code Store) :=
  ⟨.nil, fun _ h => absurd h List.not_mem_nil⟩

theorem balanced_init (store : Store) (s : SessionId) : Balanced (init store : Backend Code Store) s :=
  ⟨rfl, fun _ => rfl, fun h => absurd h (Nat.lt_irrefl 0), .nil⟩

theorem Balanced.of_same {b' : Backend Code Store} {s : SessionId} (h : Balanced b s)
    (same : SameActivity b b') : Balanced b' s where
  depth := by rw [same.depth, same.guards, h.depth]
  idle := by rw [same.depth, same.engaged]; exact h.idle
  active := by rw [same.depth, same.wrappers, same.engaged]; exact h.active
  wired := by rw [same.engaged, same.uses]; exact h.wired

/-- A session that an act on another one leaves alone. -/
theorem Balanced.elsewhere {b' : Backend Code Store} {s : SessionId} (h : Balanced b s)
    (guards : b'.guards.countP (·.session = s) = b.guards.countP (·.session = s))
    (session : b'.session s = b.session s) (uses : b'.uses s = b.uses s) : Balanced b' s where
  depth := by rw [session, guards, h.depth]
  idle := by rw [session]; exact h.idle
  active := by rw [session]; exact h.active
  wired := by rw [session, uses]; exact h.wired

/-! ### one act -/

theorem Numbered.enter (h : Numbered b) (s : SessionId) (held : Bool) : Numbered (b.enter s held).2 := by
  have hrewired := b.rewired_enter s held
  refine ⟨?_, ?_⟩
  · rw [hrewired.guards, begun, List.map_append, List.nodup_append]
    refine ⟨h.nodup, List.nodup_singleton _, ?_⟩
    intro id hid id' hid' heq
    obtain ⟨guard, hguard, rfl⟩ := List.mem_map.1 hid
    rw [List.map_singleton, List.mem_singleton] at hid'
    exact absurd (heq.trans hid') (Nat.ne_of_lt (h.lt guard hguard))
  · intro guard hguard
    rw [hrewired.guards, begun, List.mem_append, List.mem_singleton] at hguard
    rw [hrewired.nextGuard]
    obtain hguard | rfl := hguard
    · exact Nat.lt_succ_of_lt (h.lt guard hguard)
    · exact Nat.lt_succ_self _

theorem Balanced.enter {s s' : SessionId} (h : Balanced b s) (held : Bool)
    (known : s' = s → b.hasSession s = true) : Balanced (b.enter s' held).2 s := by
  have hrewired := b.rewired_enter s' held
  have hguards : (b.enter s' held).2.guards.countP (·.session = s) =
      b.guards.countP (·.session = s) + if s' = s then 1 else 0 := by
    rw [hrewired.guards, begun, List.countP_append, List.countP_singleton]
    simp
  by_cases hs : s' = s
  · subst hs
    have hsession : (b.begun s' held).session s' =
        { b.session s' with depth := (b.session s').depth + 1 } := by
      rw [session_begun, if_pos ⟨rfl, known rfl⟩]
    have hdepth : ((b.enter s' held).2.session s').depth = (b.session s').depth + 1 := by
      rw [hrewired.depth, hsession]
    refine ⟨?_, fun hidle => ?_, fun _ => ?_, ?_⟩
    · rw [hdepth, hguards, h.depth, if_pos rfl]
    · rw [hdepth] at hidle
      cases hidle
    · rw [hrewired.wrappers, enter_eq]
      split
      · have hknown : (b.begun s' held).hasSession s' = true :=
          (hasSession_modifySession b s' s' _).trans (known rfl)
        exact (rewired_engageAll hknown).2
      · next hactive =>
        rw [hsession]
        exact h.active (Nat.pos_of_ne_zero hactive)
    · refine hrewired.wired ?_
      rw [hsession]
      exact h.wired
  · obtain ⟨hsession, huses⟩ := hrewired.elsewhere s (Ne.symm hs)
    refine h.elsewhere (by rw [hguards, if_neg hs]; rfl) ?_ huses
    rw [hsession, session_begun, if_neg fun h => hs h.1.symm]

/-- The activation that ends is the only one with its number. -/
theorem guards_leave_split (h : Numbered b) {guard : Guard} {before after : List Guard}
    (hguards : b.guards = before ++ guard :: after) : (b.leave guard).guards = before ++ after := by
  have hsame : (b.released guard.session).guards = b.guards := (b.rewired_released guard.session).guards
  have hnodup := h.nodup
  rw [hguards] at hnodup
  rw [leave_eq]
  show (b.released guard.session).guards.filter (fun x => x.id ≠ guard.id) = _
  rw [hsame, hguards]
  exact filter_ne_middle hnodup

theorem guards_leave (h : Numbered b) {guard : Guard} (lasts : guard ∈ b.guards) :
    ∃ before after, b.guards = before ++ guard :: after ∧ (b.leave guard).guards = before ++ after := by
  obtain ⟨before, after, hguards⟩ := List.append_of_mem lasts
  exact ⟨before, after, hguards, guards_leave_split h hguards⟩

/-- With an activation its session has one less. -/
theorem countP_leave (h : Numbered b) {guard : Guard} (lasts : guard ∈ b.guards) (s : SessionId) :
    b.guards.countP (·.session = s) =
      (b.leave guard).guards.countP (·.session = s) + if guard.session = s then 1 else 0 := by
  obtain ⟨before, after, hguards, hleft⟩ := guards_leave h lasts
  rw [hguards, hleft, List.countP_append, List.countP_cons, List.countP_append]
  simp [Nat.add_assoc]

theorem Numbered.leave (h : Numbered b) {guard : Guard} (lasts : guard ∈ b.guards) :
    Numbered (b.leave guard) := by
  obtain ⟨before, after, hguards, hleft⟩ := guards_leave h lasts
  have hsub : (before ++ after).Sublist b.guards := by
    rw [hguards]
    exact (List.Sublist.refl before).append (List.sublist_cons_self guard after)
  refine ⟨?_, fun guard' hguard' => ?_⟩
  · rw [hleft]
    exact h.nodup.sublist (hsub.map _)
  · rw [hleft] at hguard'
    rw [leave_eq]
    show guard'.id < (b.released guard.session).nextGuard
    rw [(b.rewired_released guard.session).nextGuard]
    exact h.lt guard' (hsub.subset hguard')

theorem Balanced.leave {s : SessionId} (h : Balanced b s) (numbered : Numbered b) {guard : Guard}
    (lasts : guard ∈ b.guards) : Balanced (b.leave guard) s := by
  have hrewired := b.rewired_released guard.session
  have hcount := countP_leave numbered lasts s
  have hsession : ∀ s', (b.leave guard).session s' = (b.released guard.session).session s' := by
    intro s'
    rw [leave_eq]
    rfl
  have huses : ∀ s', (b.leave guard).uses s' = (b.released guard.session).uses s' := by
    intro s'
    rw [leave_eq]
    rfl
  by_cases hs : guard.session = s
  · subst hs
    rw [if_pos rfl, ← h.depth] at hcount
    have hknown : b.hasSession guard.session = true := hasSession_of_active (by omega)
    have hless : (b.lessDeep guard.session).session guard.session =
        { b.session guard.session with depth := (b.session guard.session).depth - 1 } := by
      rw [session_lessDeep, if_pos ⟨rfl, hknown⟩]
    have hdepth : ((b.leave guard).session guard.session).depth =
        (b.session guard.session).depth - 1 := by
      rw [hsession, hrewired.depth, hless]
    refine ⟨?_, fun hidle => ?_, fun hactive => ?_, ?_⟩
    · rw [hdepth, hcount, Nat.add_sub_cancel]
    · rw [hdepth] at hidle
      rw [hsession, released, if_pos hidle]
      exact ((b.lessDeep guard.session).releaseAll_eq guard.session).1
    · rw [hdepth] at hactive
      rw [hsession, released, if_neg (Nat.ne_of_gt hactive), hless]
      exact h.active (by omega)
    · rw [hsession, huses]
      refine hrewired.wired ?_
      rw [hless]
      exact h.wired
  · obtain ⟨helse, hthere⟩ := hrewired.elsewhere s (Ne.symm hs)
    refine h.elsewhere (by rw [hcount, if_neg hs]; rfl) ?_ ((huses s).trans hthere)
    rw [hsession, helse, session_lessDeep, if_neg fun h => hs h.1.symm]

/-- Behind a change of its wrappers a session is balanced. -/
theorem Balanced.rearranged {f : Table String WrapperSource → Table String WrapperSource}
    (h : Balanced b s) (rewired : Rewired s' (b.rearranged s' f) b')
    (idle : s' = s → (b.session s).depth = 0 → (b'.session s).engaged.entries = [])
    (active : s' = s → 0 < (b.session s).depth →
      ∀ name ∈ (f (b.session s).wrappers).keys, name ∈ (b'.session s).engaged.keys) :
    Balanced b' s := by
  have hsession := b.session_modifySession s' s fun session =>
    { session with wrappers := f session.wrappers }
  by_cases hs : s' = s
  · subst hs
    have hdepth : (b'.session s').depth = (b.session s').depth :=
      rewired.depth.trans (b.depth_rearranged s' s' f)
    refine ⟨?_, fun hidle => idle rfl (hdepth ▸ hidle), fun hactive => ?_, ?_⟩
    · rw [hdepth, rewired.guards, h.depth]
      rfl
    · rw [hdepth] at hactive
      rw [if_pos ⟨rfl, hasSession_of_active hactive⟩] at hsession
      rw [rewired.wrappers, Backend.rearranged, hsession]
      exact active rfl hactive
    · refine rewired.wired ?_
      rw [engaged_rearranged]
      exact h.wired
  · obtain ⟨helse, huses⟩ := rewired.elsewhere s (Ne.symm hs)
    refine h.elsewhere (by rw [rewired.guards]; rfl) ?_ huses
    rw [helse, Backend.rearranged, hsession, if_neg fun h => hs h.1.symm]

theorem Numbered.turn (h : Numbered b) (turn : Turn b a b') : Numbered b' := by
  cases turn with
  | same same => exact ⟨same.guards ▸ h.nodup, same.nextGuard ▸ same.guards ▸ h.lt⟩
  | begun s held => exact h.enter s held
  | ended lasts => exact h.leave lasts
  | rearranged rewired =>
      have hguards : b'.guards = b.guards := rewired.guards
      have hnext : b'.nextGuard = b.nextGuard := rewired.nextGuard
      exact ⟨hguards ▸ h.nodup, hnext ▸ hguards ▸ h.lt⟩

theorem Balanced.turn (h : Balanced b s) (numbered : Numbered b) (turn : Turn b a b')
    (known : ∀ held, a = .enter s held → b.hasSession s = true) : Balanced b' s := by
  cases turn with
  | same same => exact h.of_same same
  | begun s' held => exact h.enter held fun hs => known held (hs ▸ rfl)
  | ended lasts => exact h.leave numbered lasts
  | rearranged rewired idle active =>
      exact h.rearranged rewired (fun hs hidle => hs ▸ idle (hs ▸ hidle) (hs ▸ h.idle hidle))
        (fun hs hactive => by subst hs; exact active hactive (h.active hactive))

/-! ### whole runs -/

/-- A session is activated only while it is there. -/
def EnteredAfterOpening (b : Backend Code Store) (acts : List (Act Code Store)) (s : SessionId) : Prop :=
  ∀ pre held, pre ++ [.enter s held] <+: acts → (b.play pre).hasSession s = true

/-- Every act keeps the order of a session, so it holds at every point. -/
theorem balanced_play {store : Store} {acts pre : List (Act Code Store)}
    (opening : EnteredAfterOpening (.init store) acts s) (hpre : pre <+: acts) :
    Numbered ((init store).play pre) ∧ Balanced ((init store).play pre) s := by
  refine play_induction (I := fun _ b => Numbered b ∧ Balanced b s)
    ⟨numbered_init store, balanced_init store s⟩ ?_ hpre
  intro pre a hpoint hbefore
  have hturn := turn_apply (coherent_play store pre) a
  refine ⟨hbefore.1.turn hturn, hbefore.2.turn hbefore.1 hturn fun held hact => ?_⟩
  exact opening pre held (hact ▸ hpoint)

/-- A session falls idle only with the end of its last activation, which exits what is engaged, the last
instance first. -/
theorem uses_turn_idle (h : Balanced b s) (h' : Balanced b' s) (numbered : Numbered b)
    (turn : Turn b a b') (active : 0 < (b.session s).depth) (idle : (b'.session s).depth = 0) :
    b'.uses s = b.uses s ++ (b.session s).engaged.entries.reverse.map fun e => .exited e.1 e.2 := by
  rw [h'.depth] at idle
  have hcount := h.depth ▸ active
  cases turn with
  | same same =>
      rw [same.guards] at idle
      exact absurd idle (Nat.ne_of_gt hcount)
  | begun s' held =>
      rw [(b.rewired_enter s' held).guards, begun, List.countP_append] at idle
      exact absurd idle (by omega)
  | rearranged rewired =>
      have hguards : b'.guards = b.guards := rewired.guards
      rw [hguards] at idle
      exact absurd idle (Nat.ne_of_gt hcount)
  | @ended _ guard lasts =>
      have hleft := countP_leave numbered lasts s
      rw [idle] at hleft
      obtain rfl : guard.session = s := by
        by_contra hs
        rw [if_neg hs] at hleft
        omega
      have hlast : (b.session guard.session).depth - 1 = 0 := by
        rw [h.depth, hleft, if_pos rfl]
      have hless : (b.lessDeep guard.session).session guard.session =
          { b.session guard.session with depth := (b.session guard.session).depth - 1 } := by
        rw [session_lessDeep, if_pos ⟨rfl, hasSession_of_active active⟩]
      have huses : (b.leave guard).uses guard.session =
          ((b.lessDeep guard.session).releaseAll guard.session).uses guard.session := by
        rw [leave_eq, released, if_pos hlast]
        rfl
      rw [huses, ((b.lessDeep guard.session).releaseAll_eq guard.session).2.1, hless]
      rfl

end Backend

/-- Activations and wrappers of one session, in every sequence of acts. The depth of the session counts the
activations of it that last. At depth zero nothing is engaged, and what was seen under each name is a row
of engagements, each one entrance and one exit. At a positive depth each wrapper is engaged exactly once.
The act behind which the session is idle again exits what was engaged in the reverse of the order in which
it was entered. -/
theorem activation_balanced (store : Store) (acts : List (Act Code Store)) (s : SessionId)
    (opening : Backend.EnteredAfterOpening (.init store) acts s) {pre : List (Act Code Store)}
    (hpre : pre <+: acts) :
    let b := (Backend.init store).play pre
    (b.session s).depth = b.guards.countP (·.session = s) ∧
    ((b.session s).depth = 0 → (b.session s).engaged.entries = [] ∧ ∀ name,
      ∃ past : List InstanceId, (b.uses s).filter (·.name = name) = past.flatMap (engagement name)) ∧
    (0 < (b.session s).depth → ∀ name ∈ (b.session s).wrappers.keys,
      ∃ (past : List InstanceId) (instance_ : InstanceId),
      (b.session s).engaged.entries.filter (·.1 = name) = [(name, instance_)] ∧
      (b.uses s).filter (·.name = name) = past.flatMap (engagement name) ++ [.entered name instance_]) ∧
    ∀ a, pre ++ [a] <+: acts → 0 < (b.session s).depth → ((a.apply b).session s).depth = 0 →
      (a.apply b).uses s = b.uses s ++ (running (b.uses s)).reverse.map fun e => .exited e.1 e.2 := by
  intro b
  obtain ⟨numbered, h⟩ := Backend.balanced_play opening hpre
  refine ⟨h.depth, fun hidle => ⟨h.idle hidle, fun name => ?_⟩, fun hactive name hname => ?_, ?_⟩
  · obtain ⟨past, hpast⟩ := h.wired.turns name
    refine ⟨past, ?_⟩
    rw [hpast, h.idle hidle]
    exact List.append_nil _
  · obtain ⟨past, hpast⟩ := h.wired.turns name
    obtain ⟨instance_, honly⟩ := h.wired.filter_of_mem (h.active hactive name hname)
    refine ⟨past, instance_, honly, ?_⟩
    rw [hpast, honly]
    rfl
  · intro a hpoint hactive hidle
    have hturn := Backend.turn_apply (Backend.coherent_play store pre) a
    obtain ⟨-, h'⟩ := Backend.balanced_play opening hpoint
    rw [Backend.play_append, Backend.play_cons, Backend.play_nil] at h'
    rw [Backend.uses_turn_idle h h' numbered hturn hactive hidle, h.wired.running]

/-- A wrapper is replaced while its instance is engaged, and the activation that began first ends first. -/
def Sample.replacing : List (Act Unit Unit) :=
  [.openSession {} {}, .newInstance "pen", .addWrapper 1 "a" (.ready 0),
    .addWrapper 1 "b" (.factory "ink"), .enter 1 true, .enter 1 true, .removeWrapper 1 "a" false,
    .addWrapper 1 "a" (.factory "ink"), .exit 0, .exit 1]

theorem replacing_opening : Backend.EnteredAfterOpening (.init ()) Sample.replacing 1 := by
  have hall : ∀ n < 10, n ≠ 0 →
      (Backend.play (.init ()) (Sample.replacing.take n)).hasSession 1 = true := by decide
  intro pre held hpoint
  have hlength := hpoint.length_le
  rw [List.length_append] at hlength
  rw [List.prefix_iff_eq_take.1 ((List.prefix_append pre _).trans hpoint)]
  refine hall pre.length hlength fun hnone => ?_
  rw [List.eq_nil_of_length_eq_zero hnone] at hpoint
  nomatch (List.cons_prefix_cons.1 hpoint).1

/-- Before the last activation of the sample ends the new instance is engaged behind the other one, so it
is the first one to be exited. -/
theorem replacing_balanced :
    let b := (Backend.init ()).play (Sample.replacing.take 9)
    (b.session 1).depth = b.guards.countP (·.session = 1) ∧
      (∃ (past : List InstanceId) (instance_ : InstanceId),
        (b.session 1).engaged.entries.filter (·.1 = "a") = [("a", instance_)] ∧
        (b.uses 1).filter (·.name = "a") = past.flatMap (engagement "a") ++ [.entered "a" instance_]) ∧
      ((Act.exit 1).apply b).uses 1 = b.uses 1 ++ [.exited "a" 2, .exited "b" 1] := by
  intro b
  obtain ⟨hdepth, -, hactive, hlast⟩ :=
    activation_balanced () Sample.replacing 1 replacing_opening (List.take_prefix 9 _)
  have hengaged : running (b.uses 1) = [("b", 1), ("a", 2)] := by decide
  refine ⟨hdepth, hactive (by decide) "a" (by decide), ?_⟩
  have hidle := hlast (.exit 1) (List.prefix_refl _) (by decide) (by decide)
  rw [hidle, hengaged]
  rfl

end ViewSync
