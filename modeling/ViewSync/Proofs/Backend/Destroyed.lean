import Mathlib.Data.List.Infix
import ViewSync.Proofs.Backend.Execute
import ViewSync.Proofs.Backend.Frames

/-!
# ViewSync.Proofs.Backend.Destroyed

Destruction is final. A component that is destroyed stays so, keeps its fields and refuses what is asked of
it; the other end hears nothing of it after its deletion; and the components in the arena of a session are
those of its components that are not destroyed (`destroyed_is_final`).

One act does not respect this: the end of a construction makes a component active without a look at its
phase, so a component that was destroyed while it was constructed comes back, outside of its arena
(`destroyed_not_final`). The results are about components to which that does not happen.
-/

namespace ViewSync

variable {Code Store α : Type}

namespace Backend

variable {b b' : Backend Code Store} {c : ComponentId} {k : Component Code} {a : Act Code Store}

/-! ## what a destroyed component refuses -/

theorem change_destroyed (component : b.component? c = some k) (phase : k.phase = .destroyed)
    (changes : Fields) (options : UpdateOptions) :
    b.change c changes options = .error (.destroyed c) := by
  rw [change, component]
  simp [Component.write, phase, Except.map]

theorem beginBatch_destroyed (component : b.component? c = some k) (phase : k.phase = .destroyed)
    (options : UpdateOptions) : b.beginBatch c options = .error (.destroyed c) := by
  rw [beginBatch, openBatch, component]
  simp [Component.openBatch, phase, Except.map]

theorem destroy_destroyed (component : b.component? c = some k) (phase : k.phase = .destroyed) :
    b.destroy c = .error (.destroyed c) := by
  rw [destroy, component]
  simp [phase]

/-- An update of a destroyed component fails at once and does nothing, unless there is nothing to do. -/
theorem update_destroyed (component : b.component? c = some k) (phase : k.phase = .destroyed)
    (calls : Callbacks Code (Run Code Store)) {changes : Fields} (some_ : changes ≠ [])
    (options : UpdateOptions) :
    (calls.update c changes options).finish b = (.value (.error (.destroyed c)), b) := by
  have hempty : changes.isEmpty = false := by simpa using some_
  have hadjusted : (calls.adjusted c changes).finish b = (.value (.error (.destroyed c)), b) := by
    rw [Callbacks.adjusted, Run.finish_read_bind, component]
    simp only [phase]
    rfl
  rw [Callbacks.update, hempty]
  exact Run.finish_bind_of_value hadjusted _

/-! ## one act -/

/-- A destroyed component stays destroyed and keeps its fields. -/
theorem destroyed_effect (coherent : Coherent b) (effect : Effect b a b')
    (component : b.component? c = some k) (phase : k.phase = .destroyed)
    (notRevived : a = .activate c → ∀ k, b.component? c = some k → k.phase ≠ .destroyed) :
    ∃ k', b'.component? c = some k' ∧ k'.phase = .destroyed ∧ k'.fields = k.fields := by
  obtain ⟨k', hk', fate⟩ := fate_effect coherent effect component
  refine ⟨k', hk', ?_⟩
  cases fate with
  | same => exact ⟨phase, rfl⟩
  | retired _ live => exact absurd phase live
  | released => exact ⟨rfl, rfl⟩
  | touched touch =>
      have hfields := (touch.destroyed phase (coherent.unbatched component phase)).1
      obtain hsame | ⟨hact, -⟩ := touch.phase
      · exact ⟨hsame.trans phase, hfields⟩
      · exact absurd phase (notRevived hact k component)

/-- A component that is not destroyed is in the arena of its session. -/
def Housed (b : Backend Code Store) (c : ComponentId) : Prop :=
  ∀ k, b.component? c = some k → k.phase ≠ .destroyed → c ∈ (b.session k.session).arena

theorem Housed.effect (h : Housed b c) (coherent : Coherent b) (effect : Effect b a b')
    (notRevived : a = .activate c → ∀ k, b.component? c = some k → k.phase ≠ .destroyed) :
    Housed b' c := by
  intro k' hc hphase
  cases effect with
  | still same =>
      rw [same.arena]
      exact h k' (same.components c ▸ hc) hphase
  | opened config channel =>
      have hne := Nat.ne_of_lt (coherent.session_lt (coherent.home hc))
      rw [session_openSession, if_neg hne]
      exact h k' hc hphase
  | sent s m =>
      have same := b.sameParts_send s m
      rw [same.arena]
      exact h k' (same.components c ▸ hc) hphase
  | closed s =>
      rw [component?_close] at hc
      split at hc
      · obtain ⟨k, -, rfl⟩ := Option.map_eq_some_iff.1 hc
        exact absurd rfl hphase
      · next hout =>
        have hmem := h k' hc hphase
        rw [arena_close, if_neg]
        · exact hmem
        · intro hs
          exact hout (hs ▸ hmem)
  | skipped => exact h k' hc hphase
  | enrolled answer =>
      have parts := b.enrolled_parts answer
      rw [parts.components] at hc
      rw [parts.arena]
      split at hc
      · next hnew =>
        cases hc
        simp [hnew, Component.new]
      · have hmem := h k' hc hphase
        split
        · next hs => exact List.mem_append_left _ (hs ▸ hmem)
        · exact hmem
  | @retired _ c₁ k₁ _ component live =>
      rw [component?_retired] at hc
      rw [arena_retired]
      split at hc
      · cases hc
        exact absurd rfl hphase
      · next hne =>
        have hmem := h k' hc hphase
        split
        · exact List.mem_filter.2 ⟨hmem, by simpa using hne⟩
        · exact hmem
  | @touched _ c₁ k₁ k₂ d _ component touch told =>
      have hparts := (sameParts_tell b c₁ k₂ d).trans told.toSameParts
      rw [hparts.components, component?_setComponent] at hc
      rw [hparts.arena]
      split at hc
      · next hcc =>
        subst hcc
        cases hc
        rw [touch.session]
        refine h k₁ component ?_
        obtain hsame | ⟨hact, -⟩ := touch.phase
        · rwa [← hsame]
        · exact notRevived hact k₁ component
      · exact h k' hc hphase

/-! ## whole runs -/

/-- A component that is destroyed at some point of a run is so, with the same fields, at every later one. -/
theorem destroyed_play {store : Store} {acts pre mid : List (Act Code Store)}
    (notRevived : NotRevived (init store) acts c)
    (component : ((init store).play pre).component? c = some k) (phase : k.phase = .destroyed)
    (hpre : pre <+: mid) (hmid : mid <+: acts) :
    ∃ k', ((init store).play mid).component? c = some k' ∧ k'.phase = .destroyed ∧
      k'.fields = k.fields := by
  refine play_later (P := fun b => ∃ k', b.component? c = some k' ∧ k'.phase = .destroyed ∧
    k'.fields = k.fields) ⟨k, component, phase, rfl⟩ ?_ hpre hmid
  intro mid a _ hact hfinal
  obtain ⟨k', hk', hphase, hfields⟩ := hfinal
  have hlive : a = .activate c → ∀ k, ((init store).play mid).component? c = some k →
      k.phase ≠ .destroyed := by
    intro heq
    subst heq
    exact fun k => notRevived mid k hact
  obtain ⟨k'', hk'', hphase', hfields'⟩ :=
    destroyed_effect (coherent_play store mid) (effect_apply _ a) hk' hphase hlive
  exact ⟨k'', hk'', hphase', hfields'.trans hfields⟩

theorem housed_play {store : Store} {acts pre : List (Act Code Store)}
    (notRevived : NotRevived (init store) acts c) (hpre : pre <+: acts) :
    Housed ((init store : Backend Code Store).play pre) c := by
  refine play_induction (I := fun _ b => Housed b c) ?_ ?_ hpre
  · intro k hk
    cases hk
  · intro pre a hact h
    refine h.effect (coherent_play store pre) (effect_apply _ a) ?_
    intro heq
    subst heq
    exact fun k => notRevived pre k hact

/-- A component refuses updates, batches and its destruction, and does nothing about them. -/
structure Refuses (b : Backend Code Store) (c : ComponentId) : Prop where
  update : ∀ (calls : Callbacks Code (Run Code Store)) (changes : Fields) (options : UpdateOptions),
    changes ≠ [] →
      (calls.update c changes options).finish b = (.value (.error (.destroyed c)), b)
  change : ∀ changes options, b.change c changes options = .error (.destroyed c)
  beginBatch : ∀ options, b.beginBatch c options = .error (.destroyed c)
  destroy : b.destroy c = .error (.destroyed c)

theorem refuses_of_destroyed (component : b.component? c = some k) (phase : k.phase = .destroyed) :
    Refuses b c where
  update calls _ options some_ := update_destroyed component phase calls some_ options
  change changes options := change_destroyed component phase changes options
  beginBatch options := beginBatch_destroyed component phase options
  destroy := destroy_destroyed component phase

end Backend

/-- Destruction is final for a component that does not come back. Once it is destroyed it stays so, keeps
its fields and refuses what is asked of it; nothing is told of it after its deletion, if the program tells
nothing of it itself; and it is in the arena of its session exactly when it is not destroyed. -/
theorem destroyed_is_final (calls : Callbacks Code (Prog Code Store)) (leave : Store → Store → Store)
    (fuel : Nat) (p : Prog Code Store α) (store : Store) {c : ComponentId}
    (notRevived : NotRevived (.init store) (p.course calls leave fuel store) c)
    {pre : List (Act Code Store)} (point : pre <+: p.course calls leave fuel store)
    {k : Component Code} (component : ((Backend.init store).play pre).component? c = some k) :
    (k.phase = .destroyed → ∀ mid, pre <+: mid → mid <+: p.course calls leave fuel store →
      (∃ k', ((Backend.init store).play mid).component? c = some k' ∧ k'.phase = .destroyed ∧
        k'.fields = k.fields) ∧ ((Backend.init store).play mid).Refuses c) ∧
    ((∀ s m, .send s m ∈ p.course calls leave fuel store → m.target? ≠ some c) →
      ∀ s before after, ((Backend.init store).play pre).sentTo s = before ++ .delete c :: after →
        framesOf c after = []) ∧
    (c ∈ (((Backend.init store).play pre).session k.session).arena ↔ k.phase ≠ .destroyed) := by
  have coherent := Backend.coherent_play store pre
  refine ⟨fun phase mid hpre hmid => ?_, fun unspoken s before after hsent => ?_, ?_, ?_⟩
  · obtain ⟨k', hk', hphase, hfields⟩ :=
      Backend.destroyed_play notRevived component phase hpre hmid
    exact ⟨⟨k', hk', hphase, hfields⟩, Backend.refuses_of_destroyed hk' hphase⟩
  · have framed := Backend.framed_play unspoken notRevived point
    have hdelete : framesOf c (.delete c :: after) = .delete c :: framesOf c after := by
      simp [framesOf, Message.target?]
    have hframes : framesOf c (((Backend.init store).play pre).sentTo s) =
        framesOf c before ++ .delete c :: framesOf c after := by
      rw [hsent, framesOf_append, hdelete]
    have hsession : s = k.session := by
      by_contra hs
      simp [framed.elsewhere component s hs] at hframes
    subst hsession
    obtain hnil | hlived := framed.lived component
    · simp [hnil] at hframes
    · rw [hframes] at hlived
      exact hlived.nil_of_delete
  · intro hmem
    obtain ⟨k', hk', -, hphase⟩ := coherent.member hmem
    rw [component] at hk'
    cases hk'
    exact hphase
  · exact Backend.housed_play notRevived point k component

/-! ## destruction in a run -/

theorem notRevived_retiring : NotRevived (.init ()) (Sample.course Sample.retiring) 1 := by
  intro pre k hpre component phase
  have hall : ∀ pre ∈ (Sample.course Sample.retiring).inits,
      (((Backend.init ()).play pre).component? 1).any (·.phase = .destroyed) = true →
        pre.length = 10 := by decide
  have hpoint : pre <+: Sample.course Sample.retiring := (List.prefix_append pre _).trans hpre
  -- the component is destroyed at the end only
  have hlength := hall pre ((List.mem_inits pre _).2 hpoint) (by simp [component, phase])
  have hshort := hpre.length_le
  rw [Sample.course_retiring, List.length_append, hlength] at hshort
  simp at hshort

/-- The destroyed component of the sample keeps its list, refuses everything, has left the arena, and its
deletion was the last that was told of it. -/
theorem retiring_is_final :
    (∃ k', ((Backend.init ()).play (Sample.course Sample.retiring)).component? 1 = some k' ∧
      k'.phase = .destroyed ∧ k'.fields = [("items", .arr [])]) ∧
    ((Backend.init ()).play (Sample.course Sample.retiring)).Refuses 1 ∧
    (∀ before after, ((Backend.init ()).play (Sample.course Sample.retiring)).sentTo 1 =
      before ++ .delete 1 :: after → framesOf 1 after = []) ∧
    1 ∉ (((Backend.init ()).play (Sample.course Sample.retiring)).session 1).arena := by
  obtain ⟨hfinal, hframes, hhome⟩ := destroyed_is_final _ _ _ Sample.retiring () notRevived_retiring
    (List.prefix_refl _) rfl
  obtain ⟨hstays, hrefuses⟩ := hfinal rfl _ (List.prefix_refl _) (List.prefix_refl _)
  refine ⟨hstays, hrefuses, hframes ?_ 1, fun hmem => hhome.1 hmem rfl⟩
  intro s m hmem
  change .send s m ∈ Sample.course Sample.retiring at hmem
  simp [Sample.course_retiring] at hmem

/-- Without these conditions destruction is not final. A component that destroys itself while it is
constructed is active afterwards, outside of the arena; an update without changes succeeds on a destroyed
component; and the program can tell of a component after its deletion. -/
theorem destroyed_not_final :
    (∃ pre mid, pre <+: mid ∧ mid <+: Sample.course Sample.fleeing ∧
      ((Backend.init ()).play pre).phase 1 = .destroyed ∧
      ((Backend.init ()).play mid).phase 1 = .active ∧
      1 ∉ (((Backend.init ()).play mid).session 1).arena) ∧
    (((Backend.init ()).play (Sample.course Sample.retiring)).phase 1 = .destroyed ∧
      ∀ calls : Callbacks Sample (Run Sample Unit),
        (calls.update 1 [] {}).ending ((Backend.init ()).play (Sample.course Sample.retiring)) =
          .value (.ok ())) ∧
    ∃ before after,
      ((Backend.init ()).play (Sample.course
        (Sample.retiring.bind fun _ => Prog.request (.send 1 (.change 1 []))))).sentTo 1 =
        before ++ .delete 1 :: after ∧ framesOf 1 after = [.change 1 []] := by
  refine ⟨⟨(Sample.course Sample.fleeing).take 5, Sample.course Sample.fleeing, List.take_prefix _ _,
    List.prefix_refl _, by decide, by decide, by decide⟩, ⟨by decide, fun _ => rfl⟩, ?_⟩
  exact ⟨[.define "app::View" "View" "", .create 1 "app::View", .change 1 [("items", .arr [])]],
    [.change 1 []], rfl, rfl⟩

end ViewSync
