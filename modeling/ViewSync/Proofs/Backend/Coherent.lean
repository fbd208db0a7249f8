import ViewSync.Proofs.Backend.Course
import ViewSync.Proofs.Backend.Effect

/-!
# ViewSync.Proofs.Backend.Coherent

What holds in every state that a run reaches, whatever the program does: numbers are taken in order, a
component is in no arena but its session's and in none once it is destroyed, and a batch that is open
belongs to a component that is not destroyed.

* `coherent_play` — every state behind acts is coherent;
* `fate_effect` — what an act makes of a component that is there;
* `component?_play` — a component stays, with its kind and its session;
* `isClosed_play` — a closed session stays closed.
-/

namespace ViewSync

variable {Code Store : Type}

namespace Backend

/-- The order that every act keeps. -/
structure Coherent (b : Backend Code Store) : Prop where
  session_lt : ∀ {s}, b.hasSession s = true → s < b.nextSession
  component_lt : ∀ {c k}, b.component? c = some k → c < b.nextComponent
  home : ∀ {c k}, b.component? c = some k → b.hasSession k.session = true
  member : ∀ {s c}, c ∈ (b.session s).arena →
    ∃ k, b.component? c = some k ∧ k.session = s ∧ k.phase ≠ .destroyed
  unbatched : ∀ {c k}, b.component? c = some k → k.phase = .destroyed → k.batch = none

theorem coherent_init (store : Store) : Coherent (init store : Backend Code Store) where
  session_lt h := by cases h
  component_lt h := by cases h
  home h := by cases h
  member h := by cases h
  unbatched h := by cases h

/-- Coherence is about the parts of the state alone. -/
theorem Coherent.of_sameParts {b b' : Backend Code Store} (h : Coherent b) (same : SameParts b b') :
    Coherent b' where
  session_lt hs := by
    rw [same.nextSession]
    exact h.session_lt (same.hasSession _ ▸ hs)
  component_lt hc := by
    rw [same.nextComponent]
    exact h.component_lt (same.components _ ▸ hc)
  home hc := by
    rw [same.hasSession]
    exact h.home (same.components _ ▸ hc)
  member hc := by
    rw [same.arena] at hc
    obtain ⟨k, hk⟩ := h.member hc
    exact ⟨k, same.components _ ▸ hk⟩
  unbatched hc := h.unbatched (same.components _ ▸ hc)

/-- The next number is taken by no component. -/
theorem Coherent.component?_nextComponent {b : Backend Code Store} (h : Coherent b) :
    b.component? b.nextComponent = none := by
  cases hold : b.component? b.nextComponent with
  | none => rfl
  | some k => exact absurd (h.component_lt hold) (Nat.lt_irrefl _)

/-! ## one act -/

variable {b b' : Backend Code Store} {a : Act Code Store}

theorem Coherent.openSession (h : Coherent b) (config : SessionConfig) (channel : Channel) :
    Coherent (b.openSession config channel).2 where
  session_lt {s} hs := by
    rw [hasSession_openSession, Bool.or_eq_true, decide_eq_true_eq] at hs
    obtain rfl | hs := hs
    · exact Nat.lt_succ_self _
    · exact Nat.lt_succ_of_lt (h.session_lt hs)
  component_lt hc := h.component_lt hc
  home hc := by
    rw [hasSession_openSession, h.home hc, Bool.or_true]
  member {s c} hc := by
    rw [session_openSession] at hc
    split at hc
    · cases hc
    · exact h.member hc
  unbatched hc := h.unbatched hc

theorem Coherent.close (h : Coherent b) (s : SessionId) : Coherent (b.close s) := by
  -- a component is retired or as before
  have hcomponent : ∀ {c k'}, (b.close s).component? c = some k' →
      ∃ k, b.component? c = some k ∧ (k' = k.retire ∧ c ∈ (b.session s).arena ∨ k' = k) := by
    intro c k' hc
    rw [component?_close] at hc
    split at hc
    · next hmem =>
      obtain ⟨k, hk, rfl⟩ := Option.map_eq_some_iff.1 hc
      exact ⟨k, hk, .inl ⟨rfl, hmem⟩⟩
    · exact ⟨k', hc, .inr rfl⟩
  refine ⟨fun hs => ?_, fun hc => ?_, fun hc => ?_, fun {s' c} hc => ?_, fun hc hphase => ?_⟩
  · rw [nextSession_close]
    exact h.session_lt (b.hasSession_close s _ ▸ hs)
  · obtain ⟨k, hk, -⟩ := hcomponent hc
    rw [nextComponent_close]
    exact h.component_lt hk
  · obtain ⟨k, hk, ⟨rfl, -⟩ | rfl⟩ := hcomponent hc
    all_goals
      have hhome := h.home hk
      rw [hasSession_close]
      exact hhome
  · rw [arena_close] at hc
    split at hc
    · cases hc
    · next hne =>
      obtain ⟨k, hk, rfl, hphase⟩ := h.member hc
      refine ⟨k, ?_, rfl, hphase⟩
      rw [component?_close, if_neg]
      · exact hk
      · intro hmem
        obtain ⟨k₁, hk₁, hsession, -⟩ := h.member hmem
        rw [hk] at hk₁
        cases hk₁
        exact hne hsession
  · obtain ⟨k, hk, ⟨rfl, -⟩ | rfl⟩ := hcomponent hc
    · rfl
    · exact h.unbatched hk hphase

theorem Coherent.enrolled {s : SessionId} {kind : Kind Code} {definition : ViewDefinition}
    (h : Coherent b) (parts : Enrolled b b' s kind definition) : Coherent b' := by
  have hne : ∀ {c k}, b.component? c = some k → c ≠ b.nextComponent := by
    intro c k hk
    exact Nat.ne_of_lt (h.component_lt hk)
  refine ⟨fun hs => ?_, fun {c k} hc => ?_, fun {c k} hc => ?_, fun {s' c} hc => ?_,
    fun {c k} hc hphase => ?_⟩
  · rw [parts.nextSession]
    exact h.session_lt (parts.hasSession _ ▸ hs)
  · rw [parts.components] at hc
    rw [parts.nextComponent]
    split at hc
    · next hnew => exact hnew ▸ Nat.lt_succ_self _
    · exact Nat.lt_succ_of_lt (h.component_lt hc)
  · rw [parts.components] at hc
    rw [parts.hasSession]
    split at hc
    · cases hc
      exact parts.known
    · exact h.home hc
  · have hold : ∀ {s'}, c ∈ (b.session s').arena →
        ∃ k, b'.component? c = some k ∧ k.session = s' ∧ k.phase ≠ .destroyed := by
      intro s' hc
      obtain ⟨k, hk, hsession, hphase⟩ := h.member hc
      exact ⟨k, by rw [parts.components, if_neg (hne hk), hk], hsession, hphase⟩
    rw [parts.arena] at hc
    split at hc
    · next hs =>
      subst hs
      obtain hc | hc := List.mem_append.1 hc
      · exact hold hc
      · obtain rfl := List.mem_singleton.1 hc
        exact ⟨_, by rw [parts.components, if_pos rfl], rfl, by simp [Component.new]⟩
    · exact hold hc
  · rw [parts.components] at hc
    split at hc
    · cases hc
      cases hphase
    · exact h.unbatched hc hphase

theorem Coherent.retired {c : ComponentId} {k : Component Code} (h : Coherent b)
    (component : b.component? c = some k) : Coherent (b.retired c k) := by
  refine ⟨fun hs => ?_, fun {c' k'} hc => ?_, fun {c' k'} hc => ?_, fun {s c'} hc => ?_,
    fun {c' k'} hc hphase => ?_⟩
  · rw [nextSession_retired]
    exact h.session_lt (hasSession_retired (b := b) c k _ ▸ hs)
  · rw [component?_retired] at hc
    rw [nextComponent_retired]
    split at hc
    · next hcc => exact hcc ▸ h.component_lt component
    · exact h.component_lt hc
  · rw [component?_retired] at hc
    rw [hasSession_retired]
    have hhome := h.home component
    split at hc
    · cases hc
      exact hhome
    · exact h.home hc
  · rw [arena_retired] at hc
    have hmem : c' ∈ (b.session s).arena := by
      split at hc
      · exact (List.mem_filter.1 hc).1
      · exact hc
    obtain ⟨k', hk', hsession, hphase⟩ := h.member hmem
    have hne : c' ≠ c := by
      intro heq
      subst heq
      rw [component] at hk'
      cases hk'
      rw [if_pos hsession.symm] at hc
      simp at hc
    exact ⟨k', by rw [component?_retired, if_neg hne, hk'], hsession, hphase⟩
  · rw [component?_retired] at hc
    split at hc
    · cases hc
      rfl
    · exact h.unbatched hc hphase

theorem Coherent.touched {c : ComponentId} {k k' : Component Code} {d : Option (Delivery Code)}
    (h : Coherent b) (component : b.component? c = some k) (touch : Touch c k a k' d) :
    Coherent (b.setComponent c k') := by
  refine ⟨h.session_lt, fun {c' k₁} hc => ?_, fun {c' k₁} hc => ?_, fun {s c'} hc => ?_,
    fun {c' k₁} hc hphase => ?_⟩
  · rw [component?_setComponent] at hc
    split at hc
    · next hcc =>
      rw [hcc]
      exact h.component_lt component
    · exact h.component_lt hc
  · rw [component?_setComponent] at hc
    split at hc
    · cases hc
      have hhome := h.home component
      rw [← touch.session] at hhome
      exact hhome
    · exact h.home hc
  · obtain ⟨k₁, hk₁, hsession, hphase⟩ := h.member hc
    rw [component?_setComponent]
    split
    · next hcc =>
      rw [hcc, component] at hk₁
      cases hk₁
      refine ⟨k', rfl, touch.session.trans hsession, ?_⟩
      obtain hsame | ⟨-, hactive⟩ := touch.phase
      · rwa [hsame]
      · simp [hactive]
    · exact ⟨k₁, hk₁, hsession, hphase⟩
  · rw [component?_setComponent] at hc
    split at hc
    · cases hc
      exact touch.unbatched (h.unbatched component) hphase
    · exact h.unbatched hc hphase

/-- Every act keeps the order. -/
theorem Coherent.effect (h : Coherent b) (effect : Effect b a b') : Coherent b' := by
  cases effect with
  | still same => exact h.of_sameParts same.toSameParts
  | opened config channel => exact h.openSession config channel
  | sent s m => exact h.of_sameParts (b.sameParts_send s m)
  | closed s => exact h.close s
  | skipped s kind definition =>
      exact ⟨h.session_lt, fun hc => Nat.lt_succ_of_lt (h.component_lt hc), h.home, h.member,
        h.unbatched⟩
  | enrolled answer => exact h.enrolled (b.enrolled_parts answer)
  | retired _ component _ => exact h.retired component
  | touched component touch told =>
      exact (h.touched component touch).of_sameParts ((sameParts_tell _ _ _ _).trans told.toSameParts)

/-! ## acts one after another -/

theorem Coherent.apply (h : Coherent b) (a : Act Code Store) : Coherent (a.apply b) :=
  h.effect (b.effect_apply a)

/-- Every state behind acts is coherent. -/
theorem Coherent.play (h : Coherent b) (acts : List (Act Code Store)) : Coherent (b.play acts) := by
  induction acts generalizing b with
  | nil => exact h
  | cons a acts ih => exact ih (h.apply a)

theorem coherent_play (store : Store) (acts : List (Act Code Store)) :
    Coherent ((init store : Backend Code Store).play acts) :=
  (coherent_init store).play acts

/-! ## one component -/

/-- What an act makes of a component that is there. -/
inductive Fate (b : Backend Code Store) (c : ComponentId) (k : Component Code) :
    Act Code Store → Component Code → Prop
  | same {a : Act Code Store} : Fate b c k a k
  /-- The component is destroyed while it is not destroyed. -/
  | retired {a : Act Code Store} (act : a = .destroy c ∨ a = .abandon c)
      (live : k.phase ≠ .destroyed) : Fate b c k a k.retire
  /-- The session is closed that has the component in its arena. -/
  | released {s : SessionId} (mem : c ∈ (b.session s).arena) : Fate b c k (.close s) k.retire
  | touched {a : Act Code Store} {k' : Component Code} {d : Option (Delivery Code)}
      (touch : Touch c k a k' d) : Fate b c k a k'

/-- Every act leaves a component there, as one of these makes it. -/
theorem fate_effect {c : ComponentId} {k : Component Code} (h : Coherent b) (effect : Effect b a b')
    (hc : b.component? c = some k) : ∃ k', b'.component? c = some k' ∧ Fate b c k a k' := by
  cases effect with
  | still same => exact ⟨k, by rw [same.components, hc], .same⟩
  | opened config channel => exact ⟨k, hc, .same⟩
  | sent s m => exact ⟨k, by rw [(b.sameParts_send s m).components, hc], .same⟩
  | closed s =>
      rw [component?_close, hc]
      split
      · next hmem => exact ⟨k.retire, rfl, .released hmem⟩
      · exact ⟨k, rfl, .same⟩
  | skipped => exact ⟨k, hc, .same⟩
  | enrolled answer =>
      have hne : c ≠ b.nextComponent := Nat.ne_of_lt (h.component_lt hc)
      exact ⟨k, by rw [(b.enrolled_parts answer).components, if_neg hne, hc], .same⟩
  | @retired _ c₁ k₁ act component live =>
      rw [component?_retired]
      split
      · next hcc =>
        subst hcc
        rw [component] at hc
        cases hc
        exact ⟨k.retire, rfl, .retired act live⟩
      · exact ⟨k, hc, .same⟩
  | @touched _ c₁ k₁ k' _ _ component touch told =>
      rw [told.components, component?_tell]
      split
      · next hcc =>
        subst hcc
        rw [component] at hc
        cases hc
        exact ⟨k', rfl, .touched touch⟩
      · exact ⟨k, hc, .same⟩

/-- A component stays, with its kind and its session. -/
theorem component?_effect {c : ComponentId} {k : Component Code} (h : Coherent b)
    (effect : Effect b a b') (hc : b.component? c = some k) :
    ∃ k', b'.component? c = some k' ∧ k'.kind = k.kind ∧ k'.session = k.session := by
  obtain ⟨k', hk', fate⟩ := fate_effect h effect hc
  refine ⟨k', hk', ?_⟩
  cases fate with
  | same => exact ⟨rfl, rfl⟩
  | retired => exact ⟨rfl, rfl⟩
  | released => exact ⟨rfl, rfl⟩
  | touched touch => exact ⟨touch.kind, touch.session⟩

/-- Every component was there before, unless it is the one that is created. -/
theorem component?_of_effect {c : ComponentId} {k' : Component Code} (effect : Effect b a b')
    (hc : b'.component? c = some k') :
    (b.component? c).isSome = true ∨
      ∃ s kind definition, a = .enroll s kind definition ∧ k' = .new kind s := by
  cases effect with
  | still same => exact .inl (by rw [← same.components, hc]; rfl)
  | opened config channel => exact .inl (Option.isSome_of_eq_some hc)
  | sent s m => exact .inl (by rw [← (b.sameParts_send s m).components, hc]; rfl)
  | closed s =>
      rw [component?_close] at hc
      split at hc
      · obtain ⟨k, hk, -⟩ := Option.map_eq_some_iff.1 hc
        exact .inl (Option.isSome_of_eq_some hk)
      · exact .inl (Option.isSome_of_eq_some hc)
  | skipped => exact .inl (Option.isSome_of_eq_some hc)
  | @enrolled s kind definition _ answer =>
      rw [(b.enrolled_parts answer).components] at hc
      split at hc
      · cases hc
        exact .inr ⟨s, kind, definition, rfl, rfl⟩
      · exact .inl (Option.isSome_of_eq_some hc)
  | retired _ component _ =>
      rw [component?_retired] at hc
      split at hc
      · next hcc => exact .inl (hcc ▸ Option.isSome_of_eq_some component)
      · exact .inl (Option.isSome_of_eq_some hc)
  | touched component touch told =>
      rw [told.components, component?_tell] at hc
      split at hc
      · next hcc => exact .inl (hcc ▸ Option.isSome_of_eq_some component)
      · exact .inl (Option.isSome_of_eq_some hc)

theorem component?_play {c : ComponentId} {k : Component Code} (h : Coherent b)
    (hc : b.component? c = some k) (acts : List (Act Code Store)) :
    ∃ k', (b.play acts).component? c = some k' ∧ k'.kind = k.kind ∧ k'.session = k.session := by
  induction acts generalizing b k with
  | nil => exact ⟨k, hc, rfl, rfl⟩
  | cons a acts ih =>
      obtain ⟨k', hk', hkind, hsession⟩ := component?_effect h (b.effect_apply a) hc
      obtain ⟨k'', hk'', hkind', hsession'⟩ := ih (h.apply a) hk'
      exact ⟨k'', hk'', hkind'.trans hkind, hsession'.trans hsession⟩

/-! ## what stays or grows -/

/-- A session that was opened stays known. -/
theorem hasSession_effect {s : SessionId} (effect : Effect b a b') (hs : b.hasSession s = true) :
    b'.hasSession s = true := by
  cases effect with
  | still same => rw [same.hasSession, hs]
  | opened config channel => rw [hasSession_openSession, hs, Bool.or_true]
  | sent s' m => rw [(b.sameParts_send s' m).hasSession, hs]
  | closed s' => rw [hasSession_close, hs]
  | skipped => exact hs
  | enrolled answer => rw [(b.enrolled_parts answer).hasSession, hs]
  | retired => rw [hasSession_retired, hs]
  | touched component touch told =>
      exact (((sameParts_tell b _ _ _).trans told.toSameParts).hasSession s).trans hs

theorem hasSession_play {s : SessionId} (hs : b.hasSession s = true) (acts : List (Act Code Store)) :
    (b.play acts).hasSession s = true := by
  induction acts generalizing b with
  | nil => exact hs
  | cons a acts ih => exact ih (hasSession_effect (b.effect_apply a) hs)

/-- A session that was opened and is closed stays closed. -/
theorem isClosed_effect {s : SessionId} (h : Coherent b) (effect : Effect b a b')
    (hs : b.hasSession s = true) (hclosed : (b.session s).isClosed = true) :
    b'.hasSession s = true ∧ (b'.session s).isClosed = true := by
  cases effect with
  | still same => exact ⟨by rw [same.hasSession, hs], same.closed s hclosed⟩
  | opened config channel =>
      have hne : s ≠ b.nextSession := Nat.ne_of_lt (h.session_lt hs)
      rw [hasSession_openSession, session_openSession, if_neg hne, hs, Bool.or_true]
      exact ⟨rfl, hclosed⟩
  | sent s' m => exact ⟨by rw [(b.sameParts_send s' m).hasSession, hs], b.isClosed_send hclosed m⟩
  | closed s' => exact ⟨by rw [hasSession_close, hs], b.isClosed_close (.inr hclosed)⟩
  | skipped => exact ⟨hs, hclosed⟩
  | enrolled answer =>
      have parts := b.enrolled_parts answer
      exact ⟨by rw [parts.hasSession, hs], parts.closed s hclosed⟩
  | retired => exact ⟨by rw [hasSession_retired, hs], isClosed_retired hclosed _ _⟩
  | touched component touch told =>
      have hparts := (sameParts_tell b _ _ _).trans told.toSameParts
      exact ⟨(hparts.hasSession s).trans hs, told.closed s (isClosed_tell hclosed _ _ _)⟩

theorem isClosed_play {s : SessionId} (h : Coherent b) (hs : b.hasSession s = true)
    (hclosed : (b.session s).isClosed = true) (acts : List (Act Code Store)) :
    ((b.play acts).session s).isClosed = true := by
  induction acts generalizing b with
  | nil => exact hclosed
  | cons a acts ih =>
      obtain ⟨hs', hclosed'⟩ := isClosed_effect h (b.effect_apply a) hs hclosed
      exact ih (h.apply a) hs' hclosed'

/-- A closed session sends nothing any more, whoever asks it to. -/
theorem sentTo_effect_of_isClosed {s : SessionId} (effect : Effect b a b')
    (hclosed : (b.session s).isClosed = true) : b'.sentTo s = b.sentTo s := by
  cases effect with
  | still same => exact same.sent s
  | opened => rfl
  | sent s' m =>
      by_cases hs : s' = s
      · exact b.sentTo_send_of_isClosed (hs ▸ hclosed) s m
      · rw [sentTo_send, if_neg fun hs' => hs hs'.1, List.append_nil]
  | closed s' => exact b.sentTo_close s' s
  | skipped => rfl
  | @enrolled s' _ _ _ answer =>
      have parts := b.enrolled_parts answer
      by_cases hs : s = s'
      · subst hs
        exact parts.shut hclosed
      · exact parts.elsewhere s hs
  | @retired _ c k =>
      have hopen : (b.retired c k).isOpen s = false := by
        rw [isOpen, isClosed_retired hclosed]
        simp
      rw [sentTo_retired, hopen]
      simp
  | @touched _ c k k' d _ component touch told =>
      rw [told.sent]
      cases d with
      | none => rfl
      | some d =>
          have hopen : (b.tell c k' (some d)).isOpen s = false := by
            rw [isOpen, isClosed_tell hclosed]
            simp
          rw [sentTo_tell_some, hopen]
          simp

theorem sentTo_play_of_isClosed {s : SessionId} (h : Coherent b) (hs : b.hasSession s = true)
    (hclosed : (b.session s).isClosed = true) (acts : List (Act Code Store)) :
    (b.play acts).sentTo s = b.sentTo s := by
  induction acts generalizing b with
  | nil => rfl
  | cons a acts ih =>
      have heffect := b.effect_apply a
      obtain ⟨hs', hclosed'⟩ := isClosed_effect h heffect hs hclosed
      exact (ih (h.apply a) hs' hclosed').trans (sentTo_effect_of_isClosed heffect hclosed)

/-- Numbers of components are never taken back. -/
theorem nextComponent_effect (effect : Effect b a b') : b.nextComponent ≤ b'.nextComponent := by
  cases effect with
  | still same => exact Nat.le_of_eq same.nextComponent.symm
  | opened => exact Nat.le_refl _
  | sent s m => exact Nat.le_of_eq (b.sameParts_send s m).nextComponent.symm
  | closed s => exact Nat.le_of_eq (b.nextComponent_close s).symm
  | skipped => exact Nat.le_succ _
  | enrolled answer => exact (b.enrolled_parts answer).nextComponent ▸ Nat.le_succ _
  | retired => exact Nat.le_of_eq (nextComponent_retired _ _).symm
  | touched _ _ told =>
      have hparts := (sameParts_tell b _ _ _).trans told.toSameParts
      exact Nat.le_of_eq hparts.nextComponent.symm

theorem nextComponent_play (b : Backend Code Store) (acts : List (Act Code Store)) :
    b.nextComponent ≤ (b.play acts).nextComponent := by
  induction acts generalizing b with
  | nil => exact Nat.le_refl _
  | cons a acts ih => exact Nat.le_trans (nextComponent_effect (b.effect_apply a)) (ih (a.apply b))

end Backend

end ViewSync
