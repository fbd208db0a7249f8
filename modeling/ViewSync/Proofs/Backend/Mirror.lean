import Mathlib.Data.List.Infix
import ViewSync.Proofs.Backend.Coherent
import ViewSync.Proofs.Backend.Execute
import ViewSync.Proofs.Wire.Change

/-!
# ViewSync.Proofs.Backend.Mirror

The other end follows the backend. It starts a component without fields and applies every change that it
is told, leaving action keys out. The changes of a component are stored in several ways: by an update, with
list actions resolved, or inside a batch, which is told as one change when it is committed. Between the
acts of a run the fields are those at the other end with what an open batch keeps back applied to them
(`Mirrored`); so they are equal whenever no batch is open (`mirror_eq_fields`).
-/

namespace ViewSync

variable {Code Store α : Type}

/-! ## the other end -/

/-- The fields of a component at the other end after one more message. -/
def mirrorStep (c : ComponentId) (fields : Fields) : Message → Fields
  | .change id changes => if id = c then applyChanges fields changes else fields
  | _ => fields

/-- The fields of a component at the other end after messages. -/
def mirror (c : ComponentId) (ms : List Message) : Fields :=
  ms.foldl (mirrorStep c) []

theorem mirror_append_change (c : ComponentId) (ms : List Message) (changes : Fields) :
    mirror c (ms ++ [.change c changes]) = applyChanges (mirror c ms) changes := by
  simp [mirror, mirrorStep]

/-- Messages that tell no change of the component do not matter. -/
theorem mirror_append_of_forall {c : ComponentId} {more : List Message}
    (h : ∀ changes, .change c changes ∉ more) (ms : List Message) :
    mirror c (ms ++ more) = mirror c ms := by
  induction more using List.reverseRecOn with
  | nil => rw [List.append_nil]
  | append_singleton more m ih =>
      have hmore : mirror c (ms ++ more) = mirror c ms :=
        ih fun changes hmem => h changes (List.mem_append_left _ hmem)
      have hlast : ∀ fields, mirrorStep c fields m = fields := by
        intro fields
        cases m with
        | change id changes =>
            have hid : id ≠ c := by
              intro heq
              subst heq
              exact h changes (List.mem_append_right _ (List.mem_singleton.2 rfl))
            simp [mirrorStep, hid]
        | _ => rfl
      have hfold : mirror c (ms ++ (more ++ [m])) = mirrorStep c (mirror c (ms ++ more)) m := by
        simp [mirror, List.foldl_append]
      rw [hfold, hlast, hmore]

/-! ## what is kept back -/

/-- What an open batch keeps back. -/
def Component.keptBack (k : Component Code) : Fields :=
  match k.batch with
  | some batch => batch.buffer
  | none => []

/-- The conditions under which the other end can follow a component of a session: the session is open while
the component is there, every change is forwarded, no batch is dropped with changes in it, the program
sends no messages of its own, and the component is not destroyed. -/
structure Followed (b : Backend Code Store) (acts : List (Act Code Store)) (s : SessionId)
    (c : ComponentId) : Prop where
  isOpen : ∀ pre, pre <+: acts → ((b.play pre).component? c).isSome = true →
    (b.play pre).isOpen s = true
  forward : ∀ changes options, .change c changes options ∈ acts → options.forward = true
  undropped : ∀ pre k batch, pre ++ [.drop c batch.holder] <+: acts →
    (b.play pre).component? c = some k → k.batch = some batch → batch.buffer = []
  unspoken : ∀ m, .send s m ∉ acts
  undestroyed : .destroy c ∉ acts ∧ .abandon c ∉ acts

/-- A component agrees with its fields at the other end, but for what its batch keeps back. -/
structure InStep (told : Fields) (k : Component Code) : Prop where
  fields : k.fields = applyChanges told k.keptBack
  nodup : ∀ {batch}, k.batch = some batch → batch.buffer.names.Nodup
  forward : ∀ {batch}, k.batch = some batch → batch.buffer ≠ [] → batch.options.forward = true

/-- The fields at the other end once a delivery arrived. -/
def delivered (told : Fields) : Option (Delivery Code) → Fields
  | none => told
  | some d => applyChanges told d.changes

theorem inStep_new (kind : Kind Code) (s : SessionId) : InStep [] (Component.new kind s) where
  fields := rfl
  nodup h := by cases h
  forward h := by cases h

theorem InStep.of_unbatched {told : Fields} {k : Component Code} (unbatched : k.batch = none)
    (fields : k.fields = told) : InStep told k where
  fields := by rw [fields, Component.keptBack, unbatched]; rfl
  nodup h := by rw [unbatched] at h; cases h
  forward h := by rw [unbatched] at h; cases h

theorem InStep.fields_of_unbatched {told : Fields} {k : Component Code} (h : InStep told k)
    (unbatched : k.batch = none) : k.fields = told := by
  have hfields := h.fields
  rw [Component.keptBack, unbatched] at hfields
  exact hfields

theorem InStep.fields_of_within {told : Fields} {k : Component Code} {batch : Batch}
    (h : InStep told k) (within : k.batch = some batch) :
    k.fields = applyChanges told batch.buffer := by
  have hfields := h.fields
  rw [Component.keptBack, within] at hfields
  exact hfields

/-- A touch keeps a component in step when updates are forwarded and no batch is dropped with changes in
it; and then whatever is told is told to the other end. -/
theorem InStep.touch {told : Fields} {c : ComponentId} {k k' : Component Code} {a : Act Code Store}
    {d : Option (Delivery Code)} (h : InStep told k) (touch : Touch c k a k' d)
    (forward : ∀ changes options, a = .change c changes options → options.forward = true)
    (undropped : ∀ batch, a = .drop c batch.holder → k.batch = some batch → batch.buffer = []) :
    InStep (delivered told d) k' ∧ ∀ d', d = some d' → d'.options.forward = true := by
  cases touch with
  | activated => exact ⟨⟨h.fields, h.nodup, h.forward⟩, nofun⟩
  | listened | unlistened => exact ⟨⟨h.fields, h.nodup, h.forward⟩, nofun⟩
  | opened live unbatched =>
      refine ⟨⟨h.fields_of_unbatched unbatched, fun hbatch => ?_, fun hbatch => ?_⟩, nofun⟩
      · cases hbatch
        exact List.nodup_nil
      · cases hbatch
        exact fun hne => absurd rfl hne
  | @buffered changes batch live within =>
      refine ⟨⟨?_, fun hbatch => ?_, fun hbatch => ?_⟩, nofun⟩
      · -- what the batch keeps back and the new changes are applied as one change set
        change applyChanges k.fields changes = applyChanges told (batch.buffer.putAll changes)
        rw [h.fields_of_within within, applyChanges_putAll (h.nodup within)]
      · cases hbatch
        exact Fields.nodup_putAll (h.nodup within) changes
      · cases hbatch
        exact fun _ => forward changes batch.options rfl
  | @written changes resolved options live unbatched resolves =>
      refine ⟨.of_unbatched unbatched ?_, ?_⟩
      · change applyChanges k.fields resolved = applyChanges told resolved
        rw [h.fields_of_unbatched unbatched]
      · intro d' heq
        cases heq
        exact forward changes options rfl
  | @committed batch within =>
      have hfields := h.fields_of_within within
      by_cases hempty : batch.buffer = []
      · rw [hempty] at hfields
        rw [hempty]
        exact ⟨.of_unbatched rfl hfields, nofun⟩
      · rw [if_neg (by simpa using hempty)]
        refine ⟨.of_unbatched rfl hfields, ?_⟩
        intro d' heq
        cases heq
        exact h.forward within hempty
  | @dropped batch within =>
      have hfields := h.fields_of_within within
      rw [undropped batch rfl within] at hfields
      exact ⟨.of_unbatched rfl hfields, nofun⟩

namespace Backend

/-- A component of a session is in step with what the session told of it, and of a component that is not
there nothing was told. -/
structure Mirrored (b : Backend Code Store) (s : SessionId) (c : ComponentId) : Prop where
  unknown : b.component? c = none → mirror c (b.sentTo s) = []
  inStep : ∀ {k}, b.component? c = some k → k.session = s → InStep (mirror c (b.sentTo s)) k

theorem mirrored_init (store : Store) (s : SessionId) (c : ComponentId) :
    Mirrored (init store : Backend Code Store) s c where
  unknown _ := rfl
  inStep h := by cases h

variable {b b' : Backend Code Store} {s : SessionId} {c : ComponentId}

/-- Only the component and what is told of it matters. -/
theorem Mirrored.of_same (h : Mirrored b s c) (component : b'.component? c = b.component? c)
    (told : mirror c (b'.sentTo s) = mirror c (b.sentTo s)) : Mirrored b' s c where
  unknown hc := by
    rw [told]
    exact h.unknown (component ▸ hc)
  inStep hc hs := by
    rw [told]
    exact h.inStep (component ▸ hc) hs

theorem Mirrored.touched {a : Act Code Store} {k k' : Component Code} {d : Option (Delivery Code)}
    (h : Mirrored b s c) (component : b.component? c = some k) (touch : Touch c k a k' d)
    (told : (b.tell c k' d).Still b') (hbefore : b.isOpen s = true) (hafter : b'.isOpen s = true)
    (forward : ∀ changes options, a = .change c changes options → options.forward = true)
    (undropped : ∀ batch, a = .drop c batch.holder → k.batch = some batch → batch.buffer = []) :
    Mirrored b' s c := by
  have hcomponent : b'.component? c = some k' := by
    rw [told.components, component?_tell, if_pos rfl]
  refine ⟨fun hc => ?_, fun {k₁} hc hs => ?_⟩
  all_goals
    rw [hcomponent] at hc
    cases hc
  obtain ⟨hstep, hforward⟩ := (h.inStep component (touch.session ▸ hs)).touch touch forward undropped
  rw [told.sent]
  cases d with
  | none => exact hstep
  | some d =>
      have hopen : (b.tell c k' (some d)).isOpen s = true := by
        rw [isOpen, Bool.and_eq_true, Bool.not_eq_true'] at hbefore hafter ⊢
        refine ⟨by rw [isAlive_tell, hbefore.1], ?_⟩
        cases hclosed : ((b.tell c k' (some d)).session s).isClosed with
        | false => rfl
        | true =>
            rw [told.closed s hclosed] at hafter
            cases hafter.2
      rw [sentTo_tell_some, if_pos ⟨hforward d rfl, hs, hopen⟩, mirror_append_change]
      exact hstep

/-! ## every act -/

theorem Mirrored.enrolled {kind : Kind Code} {definition : ViewDefinition} {s' : SessionId}
    (h : Mirrored b s c) (coherent : Coherent b) (parts : Enrolled b b' s' kind definition) :
    Mirrored b' s c := by
  -- a view and a new component are told, but no change
  have hnone : ∀ changes, .change c changes ∉ b.firstUse s' definition ++
      [.create b.nextComponent definition.viewRef.render] := by
    intro changes
    unfold firstUse
    split <;> simp
  have htold : mirror c (b'.sentTo s) = mirror c (b.sentTo s) := by
    by_cases hs : s = s'
    · subst hs
      cases hclosed : (b'.session s).isClosed with
      | false => rw [parts.sent hclosed, mirror_append_of_forall hnone]
      | true =>
          obtain hsent | hsent := parts.unsent hclosed
          · rw [hsent]
          · rw [hsent, mirror_append_of_forall]
            exact fun changes hmem => hnone changes (List.mem_append_left _ hmem)
    · rw [parts.elsewhere s hs]
  by_cases hc : c = b.nextComponent
  · have hunknown : b.component? c = none := hc ▸ coherent.component?_nextComponent
    have hnew : b'.component? c = some (.new kind s') := by rw [parts.components, if_pos hc]
    refine ⟨fun hnot => ?_, fun {k} hk _ => ?_⟩
    · rw [hnew] at hnot
      cases hnot
    · rw [hnew] at hk
      cases hk
      rw [htold, h.unknown hunknown]
      exact inStep_new kind s'
  · exact h.of_same (by rw [parts.components, if_neg hc]) htold

theorem Mirrored.close (h : Mirrored b s c) (coherent : Coherent b) (s' : SessionId)
    (after : ((b.close s').component? c).isSome = true → (b.close s').isOpen s = true) :
    Mirrored (b.close s') s c := by
  refine ⟨fun hc => ?_, fun {k'} hc hs => ?_⟩
  · rw [sentTo_close]
    rw [component?_close] at hc
    refine h.unknown ?_
    split at hc
    · exact Option.map_eq_none_iff.1 hc
    · exact hc
  · have hopen : (b.close s').isOpen s = true := after (by rw [hc]; rfl)
    have hne : s ≠ s' := by
      intro heq
      subst heq
      rw [isOpen, b.isClosed_close (.inl rfl)] at hopen
      simp at hopen
    rw [sentTo_close]
    rw [component?_close] at hc
    split at hc
    · next hmem =>
      -- the components of the closed session are none of this one
      obtain ⟨k, hk, hsession, -⟩ := coherent.member hmem
      rw [hk] at hc
      cases hc
      exact absurd (hs.symm.trans hsession) hne
    · exact h.inStep hc hs

/-- What an act does to a component that is followed keeps it in step. -/
theorem Mirrored.effect {a : Act Code Store} (h : Mirrored b s c) (coherent : Coherent b)
    (effect : Effect b a b') (before : (b.component? c).isSome = true → b.isOpen s = true)
    (after : (b'.component? c).isSome = true → b'.isOpen s = true)
    (forward : ∀ changes options, a = .change c changes options → options.forward = true)
    (undropped : ∀ k batch, a = .drop c batch.holder → b.component? c = some k →
      k.batch = some batch → batch.buffer = [])
    (unspoken : ∀ m, a ≠ .send s m) (undestroyed : a ≠ .destroy c ∧ a ≠ .abandon c) :
    Mirrored b' s c := by
  cases effect with
  | still same => exact h.of_same (same.components c) (by rw [same.sent])
  | opened config channel => exact h.of_same rfl rfl
  | sent s' m =>
      have hs : s' ≠ s := by
        intro heq
        subst heq
        exact unspoken m rfl
      refine h.of_same ((b.sameParts_send s' m).components c) ?_
      rw [sentTo_send, if_neg fun hs' => hs hs'.1, List.append_nil]
  | closed s' => exact h.close coherent s' after
  | skipped => exact h.of_same rfl rfl
  | enrolled answer => exact h.enrolled coherent (b.enrolled_parts answer)
  | @retired _ c₁ k act component live =>
      have hne : c ≠ c₁ := by
        intro heq
        subst heq
        obtain hact | hact := act
        · exact undestroyed.1 hact
        · exact undestroyed.2 hact
      refine h.of_same (by rw [component?_retired, if_neg hne]) ?_
      rw [sentTo_retired, mirror_append_of_forall]
      intro changes
      split <;> simp
  | @touched _ c₁ k k' d _ component touch told =>
      by_cases hc : c = c₁
      · subst hc
        have hbefore : b.isOpen s = true := before (by rw [component]; rfl)
        have hcomponent : b'.component? c = some k' := by
          rw [told.components, component?_tell, if_pos rfl]
        have hafter : b'.isOpen s = true := after (by rw [hcomponent]; rfl)
        exact h.touched component touch told hbefore hafter forward
          fun batch hact hbatch => undropped k batch hact component hbatch
      · refine h.of_same ?_ ?_
        · rw [told.components, component?_tell, if_neg hc]
        · rw [told.sent]
          cases d with
          | none => rfl
          | some d =>
              rw [sentTo_tell_some, mirror_append_of_forall]
              intro changes
              split <;> simp [hc]

/-! ## whole runs -/

theorem mirrored_play {store : Store} {acts pre : List (Act Code Store)}
    (followed : Followed (init store) acts s c) (hpre : pre <+: acts) :
    Mirrored ((init store : Backend Code Store).play pre) s c := by
  refine play_induction (I := fun _ b => Mirrored b s c) (mirrored_init store s c) ?_ hpre
  intro pre a hact h
  have hpre : pre <+: acts := (List.prefix_append pre [a]).trans hact
  have hmem : a ∈ acts := hact.subset (by simp)
  have hafter := followed.isOpen _ hact
  rw [play_append] at hafter
  refine h.effect (coherent_play store pre) (effect_apply _ a) (followed.isOpen pre hpre) hafter
    ?_ ?_ ?_ ⟨?_, ?_⟩
  · intro changes options heq
    subst heq
    exact followed.forward changes options hmem
  · intro k batch heq hk hbatch
    subst heq
    exact followed.undropped pre k batch hact hk hbatch
  · intro m heq
    subst heq
    exact followed.unspoken m hmem
  · intro heq
    subst heq
    exact followed.undestroyed.1 hmem
  · intro heq
    subst heq
    exact followed.undestroyed.2 hmem

end Backend

/-- The other end agrees with the backend: in every run, at every point at which a component that is
followed has no open batch, its fields are what the changes told of it make up. -/
theorem mirror_eq_fields (calls : Callbacks Code (Prog Code Store)) (leave : Store → Store → Store)
    (fuel : Nat) (p : Prog Code Store α) (store : Store) {s : SessionId} {c : ComponentId}
    (followed : Followed (.init store) (p.course calls leave fuel store) s c)
    {pre : List (Act Code Store)} (point : pre <+: p.course calls leave fuel store)
    {k : Component Code} (component : ((Backend.init store).play pre).component? c = some k)
    (session : k.session = s) (unbatched : k.batch = none) :
    mirror c (((Backend.init store).play pre).sentTo s) = k.fields :=
  (((Backend.mirrored_play followed point).inStep component session).fields_of_unbatched
    unbatched).symm

/-! ## a list that grows -/

/-- The component of the growing list is followed. -/
theorem followed_growing : Followed (.init ()) (Sample.course Sample.growing) 1 1 where
  isOpen pre hpre := by
    have hall : ∀ pre ∈ (Sample.course Sample.growing).inits,
        ((Backend.play (.init ()) pre).component? 1).isSome = true →
          (Backend.play (.init ()) pre).isOpen 1 = true := by decide
    exact hall pre ((List.mem_inits pre _).2 hpre)
  forward changes options h := by
    simp only [Sample.course_growing, List.mem_cons, reduceCtorEq, false_or, Act.change.injEq, true_and,
      List.not_mem_nil, or_false] at h
    obtain ⟨-, rfl⟩ | ⟨-, rfl⟩ := h
    · rfl
    · rfl
  undropped pre k batch h := by
    have hmem := h.subset (List.mem_append_right pre (List.mem_singleton.2 rfl))
    simp [Sample.course_growing] at hmem
  unspoken m h := by simp [Sample.course_growing] at h
  undestroyed := by simp [Sample.course_growing]

theorem mirror_growing :
    ∃ k, ((Backend.init ()).play (Sample.course Sample.growing)).component? 1 = some k ∧
      k.fields = [("items", .arr [.int 7])] ∧
      mirror 1 (((Backend.init ()).play (Sample.course Sample.growing)).sentTo 1) = k.fields :=
  ⟨_, rfl, rfl, mirror_eq_fields _ _ _ Sample.growing () followed_growing (List.prefix_refl _) rfl rfl
    rfl⟩

end ViewSync
