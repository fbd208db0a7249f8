import ViewSync.Proofs.Backend.Parts

/-!
# ViewSync.Proofs.Backend.Effect

What an act can do, said once for all acts. Most acts are still; the others open or close a session, send
a message of the program, create or destroy a component, or touch a component that is there.

* `Touch` — what acts do to one component, and what is told of that;
* `Effect` — what an act does to the state;
* `effect_apply` — every act has an effect.
-/

namespace ViewSync

variable {Code Store : Type}

/-- What an act makes of a component, and what the other end and the listeners are told of it. -/
inductive Touch (c : ComponentId) (k : Component Code) :
    Act Code Store → Component Code → Option (Delivery Code) → Prop
  /-- The construction ends. -/
  | activated : Touch c k (.activate c) { k with phase := .active } none
  /-- A batch keeps changes back. -/
  | buffered {changes : Fields} {batch : Batch} (live : k.phase ≠ .destroyed)
      (within : k.batch = some batch) :
      Touch c k (.change c changes batch.options)
        { k with
          fields := applyChanges k.fields changes
          batch := some { batch with buffer := batch.buffer.putAll changes } }
        none
  /-- Changes are made and told. -/
  | written {changes resolved : Fields} {options : UpdateOptions} (live : k.phase ≠ .destroyed)
      (unbatched : k.batch = none) (resolves : resolve k.fields changes = .ok resolved) :
      Touch c k (.change c changes options)
        { k with fields := applyChanges k.fields resolved }
        (some ⟨resolved, options, k.listenersFor options⟩)
  | opened {a : Act Code Store} {holder : BatchHolder} {options : UpdateOptions}
      (live : k.phase ≠ .destroyed) (unbatched : k.batch = none) :
      Touch c k a { k with batch := some ⟨holder, [], options⟩ } none
  /-- What a batch kept back is told. -/
  | committed {batch : Batch} (within : k.batch = some batch) :
      Touch c k (.commit c batch.holder) { k with batch := none }
        (if batch.buffer.isEmpty then none
          else some ⟨batch.buffer, batch.options, k.listenersFor batch.options⟩)
  | dropped {batch : Batch} (within : k.batch = some batch) :
      Touch c k (.drop c batch.holder) { k with batch := none } none
  /-- A listener comes. -/
  | listened (fields : Option (List String)) (code : Code) :
      Touch c k (.listen c fields code) (k.listen fields code).2 none
  /-- A listener goes. -/
  | unlistened (id : ListenerId) : Touch c k (.unlisten c id) (k.unlisten id).2 none

namespace Touch

variable {c : ComponentId} {k k' : Component Code} {a : Act Code Store} {d : Option (Delivery Code)}

theorem session (h : Touch c k a k' d) : k'.session = k.session := by
  cases h <;> rfl

theorem kind (h : Touch c k a k' d) : k'.kind = k.kind := by
  cases h <;> rfl

/-- Only the end of the construction changes the phase. -/
theorem phase (h : Touch c k a k' d) :
    k'.phase = k.phase ∨ a = .activate c ∧ k'.phase = .active := by
  cases h with
  | activated => exact .inr ⟨rfl, rfl⟩
  | _ => exact .inl rfl

/-- A touch opens no batch on a destroyed component. -/
theorem unbatched (h : Touch c k a k' d) (hk : k.phase = .destroyed → k.batch = none)
    (hphase : k'.phase = .destroyed) : k'.batch = none := by
  cases h with
  | activated => cases hphase
  | buffered live => exact absurd hphase live
  | opened live => exact absurd hphase live
  | written => exact hk hphase
  | committed => rfl
  | dropped => rfl
  | listened | unlistened => exact hk hphase

/-- A destroyed component keeps its fields, and nothing is told of it. -/
theorem destroyed (h : Touch c k a k' d) (hphase : k.phase = .destroyed) (hbatch : k.batch = none) :
    k'.fields = k.fields ∧ d = none := by
  cases h with
  | activated => exact ⟨rfl, rfl⟩
  | buffered live => exact absurd hphase live
  | opened => exact ⟨rfl, rfl⟩
  | written live => exact absurd hphase live
  | committed within => rw [hbatch] at within; cases within
  | dropped within => rw [hbatch] at within; cases within
  | listened | unlistened => exact ⟨rfl, rfl⟩

end Touch

namespace Backend

/-- A component is retired, leaves the arena of its session, and the other end is told. -/
def retired (b : Backend Code Store) (c : ComponentId) (k : Component Code) : Backend Code Store :=
  ((b.setComponent c k.retire).forget k.session c).sendFrom c (.delete c)

/-- What an act does to the state. -/
inductive Effect (b : Backend Code Store) : Act Code Store → Backend Code Store → Prop
  | still {a : Act Code Store} {b' : Backend Code Store} (same : b.Still b') : Effect b a b'
  | opened (config : SessionConfig) (channel : Channel) :
      Effect b (.openSession config channel) (b.openSession config channel).2
  | sent (s : SessionId) (m : Message) : Effect b (.send s m) (b.send s m)
  | closed (s : SessionId) : Effect b (.close s) (b.close s)
  /-- A component cannot be created, but a number is used up. -/
  | skipped (s : SessionId) (kind : Kind Code) (definition : ViewDefinition) :
      Effect b (.enroll s kind definition) b.takeNumber
  | enrolled {s : SessionId} {kind : Kind Code} {definition : ViewDefinition} {b' : Backend Code Store}
      (answer : b.enroll s kind definition = (.ok b.nextComponent, b')) :
      Effect b (.enroll s kind definition) b'
  | retired {a : Act Code Store} {c : ComponentId} {k : Component Code}
      (act : a = .destroy c ∨ a = .abandon c) (component : b.component? c = some k)
      (live : k.phase ≠ .destroyed) : Effect b a (b.retired c k)
  | touched {a : Act Code Store} {c : ComponentId} {k k' : Component Code}
      {d : Option (Delivery Code)} {b' : Backend Code Store} (component : b.component? c = some k)
      (touch : Touch c k a k' d) (told : (b.tell c k' d).Still b') : Effect b a b'

/-! ## acts that leave a component as it is -/

/-- Setting a component to what it is changes nothing. -/
theorem still_setComponent {b : Backend Code Store} {c : ComponentId} {k : Component Code}
    (h : b.component? c = some k) : b.Still (b.setComponent c k) := by
  refine ⟨⟨fun c' => ?_, rfl, rfl, fun _ => rfl, fun _ => rfl, fun _ => rfl⟩, fun _ => rfl, fun _ => id⟩
  rw [component?_setComponent]
  split
  · next hc => rw [hc, h]
  · rfl

/-! ## each kind of act -/

variable (b : Backend Code Store)

theorem effect_activate (c : ComponentId) : Effect b (.activate c) (b.activate c) := by
  cases h : b.component? c with
  | none =>
      refine .still ⟨⟨fun c' => ?_, rfl, rfl, fun _ => rfl, fun _ => rfl, fun _ => rfl⟩, fun _ => rfl,
        fun _ => id⟩
      rw [activate, component?_modifyComponent]
      split
      · next hc => rw [hc, h]; rfl
      · rfl
  | some k =>
      refine .touched h .activated ⟨⟨fun c' => ?_, rfl, rfl, fun _ => rfl, fun _ => rfl, fun _ => rfl⟩,
        fun _ => rfl, fun _ => id⟩
      rw [activate, tell, component?_modifyComponent, component?_setComponent, h]
      rfl

theorem effect_destroy {a : Act Code Store} {c : ComponentId} (act : a = .destroy c ∨ a = .abandon c) :
    Effect b a (b.afterTry (b.destroy c)) := by
  unfold destroy
  split
  · exact .still (.refl b)
  · next k h =>
    split
    · exact .still (.refl b)
    · next live => exact .retired act h live

theorem effect_change (c : ComponentId) (changes : Fields) (options : UpdateOptions) :
    Effect b (.change c changes options) (b.afterTry ((b.change c changes options).map (·.2))) := by
  unfold change
  split
  · exact .still (.refl b)
  · next k h =>
    unfold Component.write
    split
    · exact .still (.refl b)
    · next live =>
      cases hbatch : k.batch with
      | some batch =>
          dsimp only
          unfold Component.buffer
          split
          · exact .still (.refl b)
          · next hoptions =>
            rw [Decidable.not_not] at hoptions
            split
            · exact .still (.refl b)
            · rw [← hoptions]
              exact .touched h (.buffered live hbatch) (.refl _)
      | none =>
          dsimp only
          split
          · exact .still (.refl b)
          · next resolved hresolved =>
            rw [← hbatch]
            exact .touched h (.written live hbatch hresolved) (.refl _)

/-- A batch can be opened on a component that is not destroyed and has none. -/
theorem openBatch_cases (c : ComponentId) (holder : BatchHolder) (options : UpdateOptions) :
    (∃ e, b.openBatch c holder options = .error e) ∨
      ∃ k, b.component? c = some k ∧ k.phase ≠ .destroyed ∧ k.batch = none ∧
        b.openBatch c holder options =
          .ok (b.setComponent c { k with batch := some ⟨holder, [], options⟩ }) := by
  unfold openBatch
  split
  · exact .inl ⟨_, rfl⟩
  · next k h =>
    unfold Component.openBatch
    split
    · exact .inl ⟨_, rfl⟩
    · next live =>
      split
      · exact .inl ⟨_, rfl⟩
      · next hbatch => exact .inr ⟨k, h, live, by simpa using hbatch, rfl⟩

theorem effect_openBatch (c : ComponentId) (holder : BatchHolder) (options : UpdateOptions) :
    Effect b (.openBatch c holder options) (b.afterTry (b.openBatch c holder options)) := by
  obtain ⟨e, h⟩ | ⟨k, hk, live, unbatched, h⟩ := b.openBatch_cases c holder options
  · rw [h]
    exact .still (.refl b)
  · rw [h]
    exact .touched hk (.opened live unbatched) (.refl _)

theorem effect_beginBatch (c : ComponentId) (options : UpdateOptions) :
    Effect b (.beginBatch c options) (b.afterTry ((b.beginBatch c options).map (·.2))) := by
  unfold beginBatch
  obtain ⟨e, h⟩ | ⟨k, hk, live, unbatched, h⟩ := b.openBatch_cases c (.handle b.nextBatch) options
  · rw [h]
    exact .still (.refl b)
  · rw [h]
    exact .touched hk (.opened live unbatched) (.of_eq rfl rfl rfl rfl rfl)

/-- Only the holder of a batch closes it. -/
theorem batchOf?_eq_some {k : Component Code} {holder : BatchHolder} {batch : Batch}
    (h : k.batchOf? holder = some batch) : k.batch = some batch ∧ batch.holder = holder := by
  simpa [Component.batchOf?, Option.filter_eq_some_iff] using h

theorem effect_commit (c : ComponentId) (holder : BatchHolder) :
    Effect b (.commit c holder) (b.commit c holder).2 := by
  unfold commit
  split
  · exact .still (.refl b)
  · next k h =>
    unfold Component.closeBatch
    cases hbatch : k.batchOf? holder with
    | none => exact .still (still_setComponent h)
    | some batch =>
        obtain ⟨hwithin, rfl⟩ := batchOf?_eq_some hbatch
        exact .touched h (.committed hwithin) (.refl _)

theorem effect_drop (c : ComponentId) (holder : BatchHolder) :
    Effect b (.drop c holder) (b.drop c holder) := by
  unfold drop
  split
  · exact .still (.refl b)
  · next k h =>
    unfold Component.closeBatch
    cases hbatch : k.batchOf? holder with
    | none => exact .still (still_setComponent h)
    | some batch =>
        obtain ⟨hwithin, rfl⟩ := batchOf?_eq_some hbatch
        exact .touched h (.dropped hwithin) (.refl _)

theorem effect_listen (c : ComponentId) (fields : Option (List String)) (code : Code) :
    Effect b (.listen c fields code) (b.listen c fields code).2 := by
  unfold listen
  split
  · exact .still (.refl b)
  · next k h => exact .touched h (.listened fields code) (.refl _)

theorem effect_unlisten (c : ComponentId) (id : ListenerId) :
    Effect b (.unlisten c id) (b.unlisten c id).2 := by
  unfold unlisten
  split
  · exact .still (.refl b)
  · next k h => exact .touched h (.unlistened id) (.refl _)

/-- What is told of a view before a component uses it: nothing, once the other end knows the view. -/
def firstUse (s : SessionId) (definition : ViewDefinition) : List Message :=
  if ((b.session s).views.get? definition.viewRef).isSome then []
  else [.define definition.viewRef.render definition.name definition.source]

/-- At most one message is told of a view. -/
theorem firstUse_prefix {s : SessionId} {definition : ViewDefinition} {pre : List Message}
    (h : pre <+: b.firstUse s definition) : pre = [] ∨ pre = b.firstUse s definition := by
  unfold firstUse at h ⊢
  split at h
  · exact .inl (List.prefix_nil.1 h)
  · next hnew =>
    obtain rfl | ⟨rest, rfl, hrest⟩ := List.prefix_cons_iff.1 h
    · exact .inl rfl
    · rw [List.prefix_nil.1 hrest, if_neg hnew]
      exact .inr rfl

/-- A component is created when its session is there and its view does not stand for another source. It
joins the session first; then its view is told, if need be, and last the component itself. -/
theorem enroll_cases (s : SessionId) (kind : Kind Code) (definition : ViewDefinition) :
    (∃ e, b.enroll s kind definition = (.error e, b.takeNumber)) ∨
      b.hasSession s = true ∧
        ((b.session s).views.get? definition.viewRef).any (·.digest ≠ definition.digest) = false ∧
        b.enroll s kind definition = (.ok b.nextComponent,
          (b.takeNumber.join s b.nextComponent kind definition).sendAll s
            (b.firstUse s definition ++ [.create b.nextComponent definition.viewRef.render])) := by
  unfold enroll
  dsimp only
  cases hsession : b.sessions.get? s with
  | none => exact .inl ⟨_, rfl⟩
  | some session =>
      have hof : b.session s = session := by rw [Backend.session, hsession]; rfl
      have hknown : b.hasSession s = true := by
        rw [hasSession, Table.contains_eq_isSome, hsession]
        rfl
      dsimp only
      split
      · exact .inl ⟨_, rfl⟩
      · next hfits =>
        refine .inr ⟨hknown, by simpa [hof] using hfits, ?_⟩
        rw [sendAll_append_singleton, firstUse, hof]
        split <;> rfl

theorem effect_enroll (s : SessionId) (kind : Kind Code) (definition : ViewDefinition) :
    Effect b (.enroll s kind definition) (b.enroll s kind definition).2 := by
  obtain ⟨e, h⟩ | ⟨-, -, h⟩ := b.enroll_cases s kind definition
  · rw [h]
    exact .skipped s kind definition
  · exact .enrolled (Prod.ext (by rw [h]) rfl)

/-! ## every act -/

/-- Every act has an effect. -/
theorem effect_apply (a : Act Code Store) : Effect b a (a.apply b) := by
  cases a with
  | openSession config channel => exact .opened config channel
  | send s m => exact .sent s m
  | close s => exact .closed s
  | enroll s kind definition => exact b.effect_enroll s kind definition
  | activate c => exact b.effect_activate c
  | abandon c => exact b.effect_destroy (.inr rfl)
  | destroy c => exact b.effect_destroy (.inl rfl)
  | change c changes options => exact b.effect_change c changes options
  | openBatch c holder options => exact b.effect_openBatch c holder options
  | beginBatch c options => exact b.effect_beginBatch c options
  | commit c holder => exact b.effect_commit c holder
  | drop c holder => exact b.effect_drop c holder
  | listen c fields code => exact b.effect_listen c fields code
  | unlisten c id => exact b.effect_unlisten c id
  | _ => exact .still (still_apply rfl b)

/-! ## behind the creation of a component -/

/-- The parts of the state behind the creation of a component, and what was sent. -/
structure Enrolled (b b' : Backend Code Store) (s : SessionId) (kind : Kind Code)
    (definition : ViewDefinition) : Prop where
  known : b.hasSession s = true
  fits : ((b.session s).views.get? definition.viewRef).any (·.digest ≠ definition.digest) = false
  components : ∀ c, b'.component? c =
    if c = b.nextComponent then some (.new kind s) else b.component? c
  nextComponent : b'.nextComponent = b.nextComponent + 1
  nextSession : b'.nextSession = b.nextSession
  hasSession : ∀ s', b'.hasSession s' = b.hasSession s'
  arena : ∀ s', (b'.session s').arena =
    if s' = s then (b.session s).arena ++ [b.nextComponent] else (b.session s').arena
  views : ∀ s', (b'.session s').views =
    if s' = s then
      if (b.session s).views.contains definition.viewRef then (b.session s).views
      else (b.session s).views.insert definition.viewRef definition
    else (b.session s').views
  closed : ∀ s', (b.session s').isClosed = true → (b'.session s').isClosed = true
  elsewhere : ∀ s', s' ≠ s → b'.sentTo s' = b.sentTo s'
  /-- A session that is still open has sent everything. -/
  sent : (b'.session s).isClosed = false →
    b'.sentTo s =
      b.sentTo s ++ (b.firstUse s definition ++ [.create b.nextComponent definition.viewRef.render])
  /-- A session that was closed before has sent nothing. -/
  shut : (b.session s).isClosed = true → b'.sentTo s = b.sentTo s
  /-- A session that is closed may have sent the view, but not the component. -/
  unsent : (b'.session s).isClosed = true →
    b'.sentTo s = b.sentTo s ∨ b'.sentTo s = b.sentTo s ++ b.firstUse s definition

/-- Joining a session changes the arena and the views of that session, and a new component is there. -/
theorem session_join (s s' : SessionId) (kind : Kind Code) (definition : ViewDefinition) :
    (b.takeNumber.join s b.nextComponent kind definition).session s' =
      if s' = s ∧ b.hasSession s = true then
        { b.session s with
          arena := (b.session s).arena ++ [b.nextComponent]
          views :=
            if (b.session s).views.contains definition.viewRef then (b.session s).views
            else (b.session s).views.insert definition.viewRef definition }
      else b.session s' :=
  session_modifySession (b.takeNumber.setComponent b.nextComponent (.new kind s)) s s' _

theorem enrolled_parts {b b' : Backend Code Store} {s : SessionId} {kind : Kind Code}
    {definition : ViewDefinition} (answer : b.enroll s kind definition = (.ok b.nextComponent, b')) :
    Enrolled b b' s kind definition := by
  obtain ⟨e, h⟩ | ⟨hknown, hfits, h⟩ := b.enroll_cases s kind definition
  · rw [h] at answer
    cases answer
  rw [h] at answer
  obtain ⟨-, rfl⟩ := Prod.mk.inj answer
  have hjoin := fun s' => b.session_join s s' kind definition
  generalize hjoined : b.takeNumber.join s b.nextComponent kind definition = joined at hjoin
  generalize hms : b.firstUse s definition ++ [.create b.nextComponent definition.viewRef.render] = ms
  have hparts := joined.sameParts_sendAll s ms
  have hsentTo : ∀ s', joined.sentTo s' = b.sentTo s' := fun s' => by subst hjoined; rfl
  have hshut : ∀ {s'}, (b.session s').isClosed = true → (joined.session s').isClosed = true := by
    intro s' hs'
    rw [hjoin]
    split
    · next hs => exact hs.1 ▸ hs'
    · exact hs'
  obtain ⟨pre, hpre, hopen, hclosed⟩ := joined.sentTo_sendAll s ms
  exact {
    known := hknown
    fits := hfits
    components := fun c => by
      rw [hparts.components]
      subst hjoined
      exact component?_setComponent b.takeNumber b.nextComponent c _
    nextComponent := by rw [hparts.nextComponent]; subst hjoined; rfl
    nextSession := by rw [hparts.nextSession]; subst hjoined; rfl
    hasSession := fun s' => by
      rw [hparts.hasSession]
      subst hjoined
      exact hasSession_modifySession _ s s' _
    arena := fun s' => by
      rw [hparts.arena, hjoin]
      by_cases hs : s' = s <;> simp [hs, hknown]
    views := fun s' => by
      rw [hparts.views, hjoin]
      by_cases hs : s' = s <;> simp [hs, hknown]
    closed := fun s' hs' => isClosed_sendAll joined (hshut hs') ms
    elsewhere := fun s' hs' => by rw [sentTo_sendAll_of_ne joined hs', hsentTo]
    sent := fun h => by rw [hpre, hsentTo, hopen h, ← hms]
    shut := fun h => by rw [sentTo_sendAll_of_isClosed joined (hshut h), hsentTo]
    unsent := fun h => by
      have hfirst : pre <+: b.firstUse s definition := by
        simpa [← hms] using hclosed h
      rw [hpre, hsentTo]
      obtain rfl | hall := b.firstUse_prefix hfirst
      · exact .inl (List.append_nil _)
      · exact .inr (by rw [hall]) }

/-! ## behind the destruction of a component -/

variable {b}

theorem component?_retired (c c' : ComponentId) (k : Component Code) :
    (b.retired c k).component? c' = if c' = c then some k.retire else b.component? c' := by
  rw [retired, (sameParts_sendFrom _ c _).components]
  exact component?_setComponent b c c' _

theorem nextComponent_retired (c : ComponentId) (k : Component Code) :
    (b.retired c k).nextComponent = b.nextComponent :=
  (sameParts_sendFrom _ c _).nextComponent

theorem nextSession_retired (c : ComponentId) (k : Component Code) :
    (b.retired c k).nextSession = b.nextSession :=
  (sameParts_sendFrom _ c _).nextSession

theorem hasSession_retired (c : ComponentId) (k : Component Code) (s : SessionId) :
    (b.retired c k).hasSession s = b.hasSession s := by
  rw [retired, (sameParts_sendFrom _ c _).hasSession]
  exact hasSession_modifySession _ k.session s _

theorem arena_retired (c : ComponentId) (k : Component Code) (s : SessionId) :
    ((b.retired c k).session s).arena =
      if s = k.session then (b.session s).arena.filter (· ≠ c) else (b.session s).arena := by
  rw [retired, (sameParts_sendFrom _ c _).arena, forget, session_modifySession]
  by_cases hs : s = k.session
  · subst hs
    cases h : b.hasSession k.session with
    | true =>
        rw [if_pos ⟨rfl, h⟩, if_pos rfl]
        rfl
    | false =>
        rw [if_neg fun hk => Bool.false_ne_true (h.symm.trans hk.2), if_pos rfl,
          session_of_not_hasSession (b := b.setComponent c k.retire) h, session_of_not_hasSession h]
        rfl
  · rw [if_neg fun hk => hs hk.1, if_neg hs]
    rfl

theorem views_retired (c : ComponentId) (k : Component Code) (s : SessionId) :
    ((b.retired c k).session s).views = (b.session s).views := by
  rw [retired, (sameParts_sendFrom _ c _).views, forget]
  refine (session_modifySession_of (·.views) ?_ s).trans ?_
  · exact fun _ => rfl
  · rfl

theorem isClosed_retired {s : SessionId} (h : (b.session s).isClosed = true) (c : ComponentId)
    (k : Component Code) : ((b.retired c k).session s).isClosed = true := by
  refine isClosed_sendFrom ?_ c _
  rw [forget, session_modifySession]
  split
  · next hs => exact hs.1 ▸ h
  · exact h

/-- The end of a component is told while its session is open. -/
theorem sentTo_retired (c : ComponentId) (k : Component Code) (s : SessionId) :
    (b.retired c k).sentTo s =
      b.sentTo s ++
        if k.session = s ∧ (b.retired c k).isOpen s = true then [.delete c] else [] := by
  have hcomponent : ((b.setComponent c k.retire).forget k.session c).component? c = some k.retire := by
    simp [forget, modifySession, component?, setComponent, Table.get?_insert]
  exact sentTo_sendFrom hcomponent s (.delete c)

/-! ## behind a touch -/

theorem sameParts_forward (b : Backend Code Store) (c : ComponentId) (d : Delivery Code) :
    SameParts b (b.forward c d) := by
  unfold forward
  split
  · exact sameParts_sendFrom b c _
  · exact .of_eq rfl rfl rfl rfl

theorem isClosed_forward {s : SessionId} (h : (b.session s).isClosed = true) (c : ComponentId)
    (d : Delivery Code) : ((b.forward c d).session s).isClosed = true := by
  unfold forward
  split
  · exact isClosed_sendFrom h c _
  · exact h

theorem isAlive_forward (b : Backend Code Store) (c : ComponentId) (d : Delivery Code)
    (s : SessionId) : (b.forward c d).isAlive s = b.isAlive s := by
  unfold forward
  split
  · exact isAlive_sendFrom b c _ s
  · rfl

/-- Changes that are to be forwarded are told while the session of the component is open. -/
theorem sentTo_forward {c : ComponentId} {k : Component Code} (h : b.component? c = some k)
    (s : SessionId) (d : Delivery Code) :
    (b.forward c d).sentTo s =
      b.sentTo s ++
        if d.options.forward = true ∧ k.session = s ∧ (b.forward c d).isOpen s = true
        then [.change c d.changes] else [] := by
  unfold forward
  cases hforward : d.options.forward with
  | true => simp only [if_true, sentTo_sendFrom h, true_and]
  | false => simp

/-- Setting a component changes that component; what is told changes no parts. -/
theorem sameParts_tell (b : Backend Code Store) (c : ComponentId) (k : Component Code)
    (d : Option (Delivery Code)) : SameParts (b.setComponent c k) (b.tell c k d) := by
  cases d with
  | none => exact .of_eq rfl rfl rfl rfl
  | some d => exact sameParts_forward _ c d

theorem component?_tell (b : Backend Code Store) (c c' : ComponentId) (k : Component Code)
    (d : Option (Delivery Code)) :
    (b.tell c k d).component? c' = if c' = c then some k else b.component? c' := by
  rw [(sameParts_tell b c k d).components, component?_setComponent]

theorem isClosed_tell {s : SessionId} (h : (b.session s).isClosed = true) (c : ComponentId)
    (k : Component Code) (d : Option (Delivery Code)) :
    ((b.tell c k d).session s).isClosed = true := by
  cases d with
  | none => exact h
  | some d => exact isClosed_forward (b := b.setComponent c k) h c d

theorem isAlive_tell (b : Backend Code Store) (c : ComponentId) (k : Component Code)
    (d : Option (Delivery Code)) (s : SessionId) : (b.tell c k d).isAlive s = b.isAlive s := by
  cases d with
  | none => rfl
  | some d => exact isAlive_forward (b.setComponent c k) c d s

theorem sentTo_tell_some (b : Backend Code Store) (c : ComponentId) (k : Component Code)
    (d : Delivery Code) (s : SessionId) :
    (b.tell c k (some d)).sentTo s =
      b.sentTo s ++
        if d.options.forward = true ∧ k.session = s ∧ (b.tell c k (some d)).isOpen s = true
        then [.change c d.changes] else [] := by
  have hcomponent : (b.setComponent c k).component? c = some k := by
    rw [component?_setComponent, if_pos rfl]
  exact sentTo_forward hcomponent s d

end Backend

end ViewSync
