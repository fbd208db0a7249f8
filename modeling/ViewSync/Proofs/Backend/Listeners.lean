import ViewSync.Proofs.Backend.Batches
import ViewSync.Proofs.Backend.Wrappers
import ViewSync.Proofs.Wire.Actions

/-!
# ViewSync.Proofs.Backend.Listeners

Who is called when a component changes. The listeners of a component are those that its history left there,
and an update or a commit that tells of changes calls those of the moment at which the changes are told,
whatever the ones called first do to the rest.

* `Hearing`, `hearing_apply` — what an act makes of the listeners of a component;
* `Backend.Attached` — a listener was added, and since then neither removed nor released with its component;
* `Callbacks.Stores` — an update gets as far as changes that are stored outside a batch;
* `Callbacks.Announces` — changes are stored and sent, and then the listeners of that moment are called;
* `dispatch_calls_attached` — all of it, for every history.
-/

namespace ViewSync

variable {Code Store α : Type}

/-- Whether an act destroys a component that was not destroyed. -/
def Act.destroys (b : Backend Code Store) (c : ComponentId) (a : Act Code Store) : Prop :=
  b.phase c ≠ .destroyed ∧ (a.apply b).phase c = .destroyed

/-- Operations that go on alike from the value of another one are alike. -/
theorem Run.bind_congr {β : Type} {x : Run Code Store α} {f g : α → Run Code Store β}
    {b : Backend Code Store}
    (h : ∀ acts a, x.Does b acts a → (f a).acts (b.play acts) = (g a).acts (b.play acts) ∧
      (f a).ending (b.play acts) = (g a).ending (b.play acts)) :
    (x >>= f).acts b = (x >>= g).acts b ∧ (x >>= f).ending b = (x >>= g).ending b := by
  induction x generalizing b with
  | ended ending =>
      cases ending with
      | value a => exact h [] a ⟨rfl, rfl⟩
      | panicked p => exact ⟨rfl, rfl⟩
      | exhausted => exact ⟨rfl, rfl⟩
  | look next ih => exact ih b fun acts a hdoes => h acts a ⟨hdoes.acts_eq, hdoes.ending_eq⟩
  | act act next ih =>
      obtain ⟨hacts, hending⟩ := ih (b := act.apply b) fun acts a hdoes =>
        h (act :: acts) a ⟨congrArg (act :: ·) hdoes.acts_eq, hdoes.ending_eq⟩
      exact ⟨congrArg (act :: ·) hacts, hending⟩

theorem Run.ending_bind_pure (x : Run Code Store Unit) (b : Backend Code Store) :
    (x >>= fun _ => pure ()).ending b = x.ending b := by
  have hfinish : (x >>= fun _ => pure ()).finish b = _ := finish_andThen x _ b
  rw [ending, hfinish]
  cases x.ending b <;> rfl

namespace Backend

/-- A listener was added to a component by one of some acts, under its number, and none of the acts behind
it removed the listener or destroyed the component. -/
def Attached (b : Backend Code Store) (c : ComponentId) (l : Listener Code)
    (acts : List (Act Code Store)) : Prop :=
  ∃ before after names, acts = before ++ .listen c l.fields l.code :: after ∧
    ((b.play before).listen c l.fields l.code).1 = some (l, names) ∧
    .unlisten c l.id ∉ after ∧
    ∀ mid a, mid ++ [a] <+: after → ¬ a.destroys (b.play (before ++ .listen c l.fields l.code :: mid)) c

end Backend

/-! ## one act -/

/-- What an act makes of the listeners of a component. -/
inductive Hearing (c : ComponentId) (k : Component Code) : Act Code Store → Component Code → Prop
  | same {a : Act Code Store} {k' : Component Code} (comes : ∀ fields code, a ≠ .listen c fields code)
      (goes : ∀ id, a ≠ .unlisten c id) (listeners : k'.listeners = k.listeners)
      (nextListener : k'.nextListener = k.nextListener)
      (phase : k'.phase = .destroyed → k.phase = .destroyed) : Hearing c k a k'
  /-- With a component its listeners go. -/
  | retired {a : Act Code Store} (comes : ∀ fields code, a ≠ .listen c fields code)
      (live : k.phase ≠ .destroyed) : Hearing c k a k.retire
  | listened (fields : Option (List String)) (code : Code) :
      Hearing c k (.listen c fields code) (k.listen fields code).2
  | unlistened (id : ListenerId) : Hearing c k (.unlisten c id) (k.unlisten id).2

theorem Hearing.nextListener_le {c : ComponentId} {k k' : Component Code} {a : Act Code Store}
    (h : Hearing c k a k') : k.nextListener ≤ k'.nextListener := by
  cases h with
  | same _ _ _ nextListener => exact Nat.le_of_eq nextListener.symm
  | retired => exact Nat.le_refl _
  | listened => exact Nat.le_succ _
  | unlistened => exact Nat.le_refl _

/-- The listeners of a component are in the order of their numbers, all of which were given out. -/
def Component.Ranked (k : Component Code) : Prop :=
  k.listeners.Pairwise (·.id < ·.id) ∧ ∀ l ∈ k.listeners, l.id < k.nextListener

theorem Component.Ranked.hearing {c : ComponentId} {k k' : Component Code} {a : Act Code Store}
    (h : k.Ranked) (hearing : Hearing c k a k') : k'.Ranked := by
  cases hearing with
  | same _ _ listeners nextListener => rwa [Component.Ranked, listeners, nextListener]
  | retired => exact ⟨.nil, fun _ hl => absurd hl List.not_mem_nil⟩
  | listened fields code =>
      refine ⟨?_, fun l hl => ?_⟩
      · refine List.pairwise_append.2 ⟨h.1, List.pairwise_singleton _ _, fun l hl l' hl' => ?_⟩
        obtain rfl := List.mem_singleton.1 hl'
        exact h.2 l hl
      · obtain hl | hl := List.mem_append.1 hl
        · exact Nat.lt_succ_of_lt (h.2 l hl)
        · obtain rfl := List.mem_singleton.1 hl
          exact Nat.lt_succ_self _
  | unlistened id => exact ⟨h.1.filter _, fun l hl => h.2 l (List.mem_filter.1 hl).1⟩

/-- The listener with a number goes, or there is none with that number and nothing happens. -/
theorem Component.Ranked.unlisten_cases {k : Component Code} (h : k.Ranked) (id : ListenerId) :
    (∃ before l after, k.listeners = before ++ l :: after ∧ l.id = id ∧
        k.unlisten id = (true, { k with listeners := before ++ after })) ∨
      (∀ l ∈ k.listeners, l.id ≠ id) ∧ k.unlisten id = (false, k) := by
  by_cases hthere : ∃ l ∈ k.listeners, l.id = id
  · obtain ⟨l, hl, rfl⟩ := hthere
    obtain ⟨before, after, hsplit⟩ := List.append_of_mem hl
    have hnodup : ((before ++ l :: after).map (·.id)).Nodup := by
      rw [← hsplit]
      exact List.pairwise_map.2 (h.1.imp Nat.ne_of_lt)
    refine .inl ⟨before, l, after, hsplit, rfl, Prod.ext ?_ ?_⟩
    · exact List.any_eq_true.2 ⟨l, hl, by simp⟩
    · simp only [unlisten]
      rw [hsplit, filter_ne_middle hnodup]
  · have hnone : ∀ l ∈ k.listeners, l.id ≠ id := fun l hl heq => hthere ⟨l, hl, heq⟩
    refine .inr ⟨hnone, Prod.ext ?_ ?_⟩
    · exact List.any_eq_false.2 fun l hl => by simpa using hnone l hl
    · have hall : k.listeners.filter (·.id ≠ id) = k.listeners :=
        List.filter_eq_self.2 fun l hl => by simpa using hnone l hl
      simp only [unlisten]
      rw [hall]

namespace Backend

variable {b : Backend Code Store} {c : ComponentId} {k : Component Code}

theorem listen_of_component (hc : b.component? c = some k) (fields : Option (List String)) (code : Code) :
    b.listen c fields code =
      (some (⟨k.nextListener, fields, code⟩, k.fields.names), b.setComponent c (k.listen fields code).2) := by
  rw [listen, hc]
  rfl

theorem unlisten_of_component (hc : b.component? c = some k) (id : ListenerId) :
    b.unlisten c id = ((k.unlisten id).1, b.setComponent c (k.unlisten id).2) := by
  rw [unlisten, hc]

theorem phase_of_component (hc : b.component? c = some k) : b.phase c = k.phase := by
  rw [phase, hc]
  rfl

/-- What every act makes of the listeners of a component that is there. -/
theorem hearing_apply (coherent : Coherent b) (hc : b.component? c = some k) (a : Act Code Store) :
    ∃ k', (a.apply b).component? c = some k' ∧ Hearing c k a k' := by
  by_cases hcomes : ∃ fields code, a = .listen c fields code
  · obtain ⟨fields, code, rfl⟩ := hcomes
    refine ⟨_, ?_, .listened fields code⟩
    rw [Act.apply, listen_of_component hc, component?_setComponent, if_pos rfl]
  by_cases hgoes : ∃ id, a = .unlisten c id
  · obtain ⟨id, rfl⟩ := hgoes
    refine ⟨_, ?_, .unlistened id⟩
    rw [Act.apply, unlisten_of_component hc, component?_setComponent, if_pos rfl]
  replace hcomes : ∀ fields code, a ≠ .listen c fields code := fun fields code h => hcomes ⟨fields, code, h⟩
  replace hgoes : ∀ id, a ≠ .unlisten c id := fun id h => hgoes ⟨id, h⟩
  obtain ⟨k', hk', fate⟩ := fate_effect coherent (b.effect_apply a) hc
  refine ⟨k', hk', ?_⟩
  cases fate with
  | same => exact .same hcomes hgoes rfl rfl id
  | retired _ live => exact .retired hcomes live
  | released mem =>
      obtain ⟨k₁, hk₁, -, live⟩ := coherent.member mem
      rw [hc] at hk₁
      cases hk₁
      exact .retired hcomes live
  | touched touch =>
      cases touch with
      | activated => exact .same hcomes hgoes rfl rfl (by simp)
      | listened fields code => exact absurd rfl (hcomes fields code)
      | unlistened id => exact absurd rfl (hgoes id)
      | _ => exact .same hcomes hgoes rfl rfl id

/-- Numbers of listeners are given out once. -/
theorem nextListener_play (coherent : Coherent b) (hc : b.component? c = some k)
    (acts : List (Act Code Store)) :
    ∃ k', (b.play acts).component? c = some k' ∧ k.nextListener ≤ k'.nextListener := by
  induction acts generalizing b k with
  | nil => exact ⟨k, hc, Nat.le_refl _⟩
  | cons a acts ih =>
      obtain ⟨k', hk', hearing⟩ := hearing_apply coherent hc a
      obtain ⟨k'', hk'', hle⟩ := ih (coherent.apply a) hk'
      exact ⟨k'', hk'', Nat.le_trans hearing.nextListener_le hle⟩

/-- Numbers of listeners grow. -/
theorem id_lt_of_listen (coherent : Coherent b) {mid : List (Act Code Store)}
    {fields fields' : Option (List String)} {code code' : Code} {l l' : Listener Code}
    {names names' : List String} (first : (b.listen c fields code).1 = some (l, names))
    (second : ((b.play (.listen c fields code :: mid)).listen c fields' code').1 = some (l', names')) :
    l.id < l'.id := by
  cases hc : b.component? c with
  | none =>
      rw [listen, hc] at first
      cases first
  | some k =>
      have hlisten := listen_of_component hc fields code
      have hnext : ((Act.listen c fields code).apply b).component? c = some (k.listen fields code).2 := by
        rw [Act.apply, hlisten, component?_setComponent, if_pos rfl]
      obtain ⟨k', hk', hle⟩ := nextListener_play (coherent.apply _) hnext mid
      rw [hlisten] at first
      rw [play_cons, listen_of_component hk'] at second
      cases first
      cases second
      exact hle

/-! ## histories -/

/-- A listener that is there behind one more act was added by it, or was there and has been left there. -/
theorem attached_concat {acts : List (Act Code Store)} {a : Act Code Store} {l : Listener Code} :
    b.Attached c l (acts ++ [a]) ↔
      (a = .listen c l.fields l.code ∧
          ∃ names, ((b.play acts).listen c l.fields l.code).1 = some (l, names)) ∨
        b.Attached c l acts ∧ a ≠ .unlisten c l.id ∧ ¬ a.destroys (b.play acts) c := by
  constructor
  · rintro ⟨before, after, names, hacts, hanswer, hkept, hlives⟩
    obtain rfl | ⟨after, a', rfl⟩ := List.eq_nil_or_concat' after
    · obtain ⟨rfl, rfl⟩ := List.append_inj' hacts rfl |>.imp_right List.singleton_inj.1
      exact .inl ⟨rfl, names, hanswer⟩
    · rw [← List.cons_append, ← List.append_assoc] at hacts
      obtain ⟨rfl, rfl⟩ := List.append_inj' hacts rfl |>.imp_right List.singleton_inj.1
      rw [List.mem_append, List.mem_singleton, not_or] at hkept
      refine .inr ⟨⟨before, after, names, rfl, hanswer, hkept.1, fun mid a' hmid => ?_⟩, ?_, ?_⟩
      · exact hlives mid a' (hmid.trans (List.prefix_append _ _))
      · exact fun h => hkept.2 h.symm
      · exact hlives after a (List.prefix_refl _)
  · rintro (⟨rfl, names, hanswer⟩ | ⟨⟨before, after, names, rfl, hanswer, hkept, hlives⟩, hgoes, hends⟩)
    · exact ⟨acts, [], names, rfl, hanswer, List.not_mem_nil, fun mid a hmid => by simp at hmid⟩
    · refine ⟨before, after ++ [a], names, by simp, hanswer, ?_, fun mid a' hmid => ?_⟩
      · rw [List.mem_append, List.mem_singleton, not_or]
        exact ⟨hkept, fun h => hgoes h.symm⟩
      · obtain heq | hmid := List.prefix_concat_iff.1 hmid
        · obtain ⟨rfl, rfl⟩ := List.append_inj' heq rfl |>.imp_right List.singleton_inj.1
          exact hends
        · exact hlives mid a' hmid

theorem not_attached_of_none (coherent : Coherent b) {acts : List (Act Code Store)} {l : Listener Code}
    (hnone : (b.play acts).component? c = none) : ¬ b.Attached c l acts := by
  rintro ⟨before, after, names, rfl, hanswer, -, -⟩
  cases hc : (b.play before).component? c with
  | none =>
      rw [listen, hc] at hanswer
      cases hanswer
  | some k =>
      obtain ⟨k', hk', -⟩ := component?_play (coherent.play before) hc (.listen c l.fields l.code :: after)
      rw [← play_append, hnone] at hk'
      cases hk'

/-- The listeners of a component are those that its history left there. -/
theorem listeners_play (store : Store) (acts : List (Act Code Store)) {k : Component Code}
    (hc : ((init store).play acts).component? c = some k) :
    k.Ranked ∧ ∀ l, l ∈ k.listeners ↔ (init store).Attached c l acts := by
  induction acts using List.reverseRecOn generalizing k with
  | nil => cases hc
  | append_singleton acts a ih =>
      rw [play_append, play_cons, play_nil] at hc
      have hcoherent := coherent_play store acts
      simp only [attached_concat]
      cases hbefore : ((init store).play acts).component? c with
      | none =>
          obtain hsome | ⟨s, kind, definition, rfl, rfl⟩ :=
            component?_of_effect (effect_apply _ a) hc
          · simp [hbefore] at hsome
          · refine ⟨⟨.nil, fun _ hl => absurd hl List.not_mem_nil⟩, fun l => ?_⟩
            have hnot := not_attached_of_none (coherent_init store) hbefore (l := l)
            simp [Component.new, hnot]
      | some k₀ =>
          obtain ⟨hranked, hlisteners⟩ := ih hbefore
          obtain ⟨k', hk', hearing⟩ := hearing_apply hcoherent hbefore a
          obtain rfl : k' = k := Option.some.inj (hk'.symm.trans hc)
          refine ⟨hranked.hearing hearing, fun l => ?_⟩
          have hdestroys : a.destroys ((init store).play acts) c ↔
              k₀.phase ≠ .destroyed ∧ k'.phase = .destroyed := by
            rw [Act.destroys, phase_of_component hbefore, phase_of_component hc]
          rw [← hlisteners, hdestroys, listen_of_component hbefore]
          cases hearing with
          | same comes goes listeners _ phase =>
              simp only [comes, goes, listeners, false_and, false_or, ne_eq, not_false_iff, true_and]
              exact ⟨fun h => ⟨h, fun hends => hends.1 (phase hends.2)⟩, And.left⟩
          | retired comes live =>
              simp [comes, live, Component.retire]
          | listened fields code =>
              obtain ⟨id, fields', code'⟩ := l
              simp only [Component.listen, List.mem_append, List.mem_singleton, Act.listen.injEq,
                Listener.mk.injEq, Option.some.injEq, Prod.mk.injEq]
              grind
          | unlistened id =>
              simp only [Component.unlisten, List.mem_filter]
              grind

end Backend

/-! ## what is told of changes -/

/-- The listeners that are called for changes: those that want one of the changed names, in the order in
which they were added. -/
def Component.called (k : Component Code) (changes : Fields) (options : UpdateOptions) :
    List (Listener Code) :=
  (k.listenersFor options).filter (·.wants changes.names)

theorem Listener.wants_iff {l : Listener Code} {names : List String} :
    l.wants names = true ↔ ∀ fields, l.fields = some fields → ∃ n ∈ names, n ∈ fields := by
  unfold wants
  cases l.fields <;> simp

namespace Callbacks

variable (calls : Callbacks Code (Run Code Store))

/-- Calls listeners one after another. -/
def callAll (c : ComponentId) (changed : List String) (ls : List (Listener Code)) : Run Code Store Unit :=
  ls.forM fun l => calls.listener l.code c changed

/-- An update gets as far as changes that are stored outside a batch: so much is done before, this is what
the adjustment made of the changes, this the component then, and this what they resolve to. -/
structure Stores (b : Backend Code Store) (c : ComponentId) (changes : Fields)
    (before : List (Act Code Store)) (adjusted : Fields) (k : Component Code) (resolved : Fields) : Prop where
  nonempty : changes ≠ []
  adjusts : (calls.adjusted c changes).Does b before (.ok adjusted)
  remains : adjusted ≠ []
  component : (b.play before).component? c = some k
  live : k.phase ≠ .destroyed
  unbatched : k.batch = none
  resolves : resolve k.fields adjusted = .ok resolved

/-- An operation tells of changes: after some acts comes one that makes another component of the component
that is there, and sends the changes if they are to be forwarded. Then the listeners that the component had
at that moment are called, those that want to be, and the operation ends with the given value once they have
returned. -/
structure Announces (x : Run Code Store α) (a : α) (b : Backend Code Store) (c : ComponentId)
    (before : List (Act Code Store)) (act : Act Code Store) (k k' : Component Code) (changes : Fields)
    (options : UpdateOptions) : Prop where
  component : (b.play before).component? c = some k
  stored : (act.apply (b.play before)).component? c = some k'
  sent : ∀ s, (act.apply (b.play before)).sentTo s = (b.play before).sentTo s ++
    if options.forward = true ∧ k.session = s ∧ (act.apply (b.play before)).isOpen s = true
    then [.change c changes] else []
  acts : x.acts b = before ++ act ::
    (calls.callAll c changes.names (k.called changes options)).acts (act.apply (b.play before))
  ending : x.ending b = (calls.callAll c changes.names (k.called changes options) >>= fun _ =>
    (pure a : Run Code Store α)).ending (act.apply (b.play before))

variable {calls} {b : Backend Code Store} {c : ComponentId} {k : Component Code}

theorem announceAny_eq_callAll {changes : Fields} {options : UpdateOptions} :
    calls.announceAny c (some ⟨changes, options, k.listenersFor options⟩) =
      calls.callAll c changes.names (k.called changes options) :=
  announce_eq_forM calls c changes.names _

/-- An act that tells of changes stores them and sends them. -/
theorem announces_of_tell {x : Run Code Store α} {a : α} {before : List (Act Code Store)}
    {act : Act Code Store} {k' : Component Code} {changes : Fields} {options : UpdateOptions}
    (component : (b.play before).component? c = some k) (session : k'.session = k.session)
    (applied : act.apply (b.play before) =
      (b.play before).tell c k' (some ⟨changes, options, k.listenersFor options⟩))
    (acts : x.acts b = before ++ act ::
      (calls.announceAny c (some ⟨changes, options, k.listenersFor options⟩)).acts (act.apply (b.play before)))
    (ending : x.ending b = (calls.announceAny c (some ⟨changes, options, k.listenersFor options⟩) >>= fun _ =>
      (pure a : Run Code Store α)).ending (act.apply (b.play before))) :
    calls.Announces x a b c before act k k' changes options := by
  rw [announceAny_eq_callAll] at acts ending
  refine ⟨component, ?_, fun s => ?_, acts, ending⟩
  · rw [applied, Backend.component?_tell, if_pos rfl]
  · rw [applied, Backend.sentTo_tell_some, session]

/-- What is stored outside a batch is told at once. -/
theorem Stores.change_eq {changes adjusted resolved : Fields} {before : List (Act Code Store)}
    (h : calls.Stores b c changes before adjusted k resolved) (options : UpdateOptions) :
    (b.play before).change c adjusted options =
      .ok (some ⟨resolved, options, k.listenersFor options⟩,
        (b.play before).tell c { k with fields := applyChanges k.fields resolved }
          (some ⟨resolved, options, k.listenersFor options⟩)) := by
  have hwrite : k.write c adjusted options =
      .ok ({ k with fields := applyChanges k.fields resolved },
        some ⟨resolved, options, k.listenersFor options⟩) := by
    unfold Component.write
    rw [if_neg h.live, h.unbatched]
    simp only [h.resolves]
  rw [Backend.change, h.component]
  simp only [hwrite, Except.map]

/-- An update whose changes are stored outside a batch calls the listeners of that moment. -/
theorem Stores.announces {changes adjusted resolved : Fields} {before : List (Act Code Store)}
    (h : calls.Stores b c changes before adjusted k resolved) (options : UpdateOptions) :
    calls.Announces (calls.update c changes options) (.ok ()) b c before (.change c adjusted options) k
      { k with fields := applyChanges k.fields resolved } resolved options := by
  have hchange := h.change_eq options
  have hact := Backend.apply_change hchange
  have hnonempty : changes.isEmpty = false := by simpa using h.nonempty
  have hremains : adjusted.isEmpty = false := by simpa using h.remains
  refine announces_of_tell h.component rfl hact ?_ ?_
  · simp only [update, hnonempty, Bool.false_eq_true, if_false]
    refine (h.adjusts.acts_bind _).trans ?_
    simp only [hremains, Bool.false_eq_true, if_false]
    rw [Run.acts_step_bind, hchange]
    simp only [Except.map, Run.acts_bind_pure]
  · simp only [update, hnonempty, Bool.false_eq_true, if_false]
    refine (h.adjusts.ending_bind _).trans ?_
    simp only [hremains, Bool.false_eq_true, if_false]
    refine ((Run.does_step _ _ _).ending_bind _).trans ?_
    rw [hchange]
    rfl

/-- Changes that are told were stored outside a batch. -/
theorem stored_of_told {changes : Fields} {options : UpdateOptions} {d : Delivery Code}
    {b' : Backend Code Store} (h : b.change c changes options = .ok (some d, b')) :
    ∃ k resolved, b.component? c = some k ∧ k.phase ≠ .destroyed ∧ k.batch = none ∧
      resolve k.fields changes = .ok resolved := by
  unfold Backend.change at h
  split at h
  · cases h
  · next k hc =>
    unfold Component.write at h
    split at h
    · cases h
    · next live =>
      split at h
      · next batch _ =>
        cases hbuffer : k.buffer c batch changes options with
        | error e => simp [hbuffer, Except.map] at h
        | ok k' => simp [hbuffer, Except.map] at h
      · next unbatched =>
        split at h
        · cases h
        · next resolved hresolved => exact ⟨k, resolved, hc, live, unbatched, hresolved⟩

/-- An update that stores nothing outside a batch calls no listener of its own: it is the same, whatever
listeners do. -/
theorem update_of_not_stores {changes : Fields} (options : UpdateOptions)
    (h : ¬ ∃ before adjusted k resolved, calls.Stores b c changes before adjusted k resolved)
    (listener : Code → ComponentId → List String → Run Code Store Unit) :
    ((calls.hearing listener).update c changes options).acts b = (calls.update c changes options).acts b ∧
      ((calls.hearing listener).update c changes options).ending b =
        (calls.update c changes options).ending b := by
  unfold update
  cases hnonempty : changes.isEmpty with
  | true => exact ⟨rfl, rfl⟩
  | false =>
      simp only [Bool.false_eq_true, if_false]
      refine Run.bind_congr (x := calls.adjusted c changes) fun before outcome hadjusts => ?_
      cases outcome with
      | error e => exact ⟨rfl, rfl⟩
      | ok adjusted =>
          dsimp only
          cases hremains : adjusted.isEmpty with
          | true => exact ⟨rfl, rfl⟩
          | false =>
              simp only [Bool.false_eq_true, if_false]
              refine Run.bind_congr fun acts answer hanswer => ?_
              have hchange : ((b.play before).change c adjusted options).map (·.1) = answer :=
                Ending.value.inj hanswer.ending_eq
              cases hdelivery : (b.play before).change c adjusted options with
              | error e =>
                  rw [← hchange, hdelivery]
                  exact ⟨rfl, rfl⟩
              | ok told =>
                  obtain ⟨_ | d, b'⟩ := told
                  · rw [← hchange, hdelivery]
                    exact ⟨rfl, rfl⟩
                  · obtain ⟨k, resolved, hc, live, unbatched, resolves⟩ := stored_of_told hdelivery
                    exact absurd ⟨before, adjusted, k, resolved, by simpa using hnonempty, hadjusts,
                      by simpa using hremains, hc, live, unbatched, resolves⟩ h

/-- A commit of a batch that kept something back calls the listeners of that moment. -/
theorem announces_commit {holder : BatchHolder} {batch : Batch} (hc : b.component? c = some k)
    (within : k.batchOf? holder = some batch) (kept : batch.buffer ≠ []) :
    calls.Announces (calls.commit c holder) () b c [] (.commit c holder) k { k with batch := none }
      batch.buffer batch.options := by
  have hkept : batch.buffer.isEmpty = false := by simpa using kept
  have hcommit : b.commit c holder =
      (some ⟨batch.buffer, batch.options, k.listenersFor batch.options⟩,
        b.tell c { k with batch := none }
          (some ⟨batch.buffer, batch.options, k.listenersFor batch.options⟩)) := by
    rw [Backend.commit, hc]
    simp only [Component.closeBatch, within, hkept, Bool.false_eq_true, if_false]
  have hact : (Act.commit c holder).apply b = _ := congrArg Prod.snd hcommit
  refine announces_of_tell hc rfl hact ?_ ?_
  · unfold commit
    rw [Run.acts_step_bind, hcommit]
    rfl
  · unfold commit
    refine ((Run.does_step _ _ _).ending_bind _).trans ?_
    rw [hcommit]
    exact (Run.ending_bind_pure _ _).symm

/-- A commit of nothing is one act, and calls nobody. -/
theorem commit_of_nothing {holder : BatchHolder}
    (h : ∀ k batch, b.component? c = some k → k.batchOf? holder = some batch → batch.buffer = []) :
    (calls.commit c holder).Does b [.commit c holder] () := by
  have hnone : (b.commit c holder).1 = none := by
    unfold Backend.commit Component.closeBatch
    cases hc : b.component? c with
    | none => rfl
    | some k =>
        dsimp only
        cases hbatch : k.batchOf? holder with
        | none => rfl
        | some batch => simp [h k batch hc hbatch]
  unfold commit
  refine Run.Does.step ?_
  rw [hnone]
  exact Run.does_pure _ ()

end Callbacks

/-- Listeners of a component, in every history. They stand in the order in which they were added, and are
those that were added, not removed since then and not released with the component. Their numbers grow, and
removing a number takes away just the listener with that number and says whether there was one. An update
whose changes are stored outside a batch, and a commit of a batch that kept changes back, store them and send
them, and then call exactly those listeners of that moment that want one of the names that are told, in
order, whatever listeners do; every other update or commit calls no listener. The names that are told are
those of the changes, and the fields on which list actions among them work. -/
theorem dispatch_calls_attached (calls : Callbacks Code (Run Code Store)) (store : Store)
    (history : List (Act Code Store)) (c : ComponentId) :
    let b := (Backend.init store).play history
    (∀ k, b.component? c = some k →
      k.listeners.Pairwise (·.id < ·.id) ∧
      (∀ l, l ∈ k.listeners ↔ (Backend.init store).Attached c l history) ∧
      ∀ id,
        (∃ before l after, k.listeners = before ++ l :: after ∧ l.id = id ∧
          b.unlisten c id = (true, b.setComponent c { k with listeners := before ++ after })) ∨
        (∀ l ∈ k.listeners, l.id ≠ id) ∧ b.unlisten c id = (false, b.setComponent c k)) ∧
    (∀ (pre mid : List (Act Code Store)) fields fields' code code' l l' names names',
      (((Backend.init store).play pre).listen c fields code).1 = some (l, names) →
      (((Backend.init store).play (pre ++ .listen c fields code :: mid)).listen c fields' code').1 =
        some (l', names') → l.id < l'.id) ∧
    (∀ changes options,
      (∀ before adjusted k resolved, calls.Stores b c changes before adjusted k resolved →
        calls.Announces (calls.update c changes options) (.ok ()) b c before (.change c adjusted options) k
          { k with fields := applyChanges k.fields resolved } resolved options ∧
        ∀ n, n ∈ resolved.names ↔ n ∈ adjusted.names ∨ adjusted.actsOn n = true) ∧
      ((¬ ∃ before adjusted k resolved, calls.Stores b c changes before adjusted k resolved) →
        ∀ listener,
          ((calls.hearing listener).update c changes options).acts b =
            (calls.update c changes options).acts b ∧
          ((calls.hearing listener).update c changes options).ending b =
            (calls.update c changes options).ending b)) ∧
    (∀ holder,
      (∀ k batch, b.component? c = some k → k.batchOf? holder = some batch → batch.buffer ≠ [] →
        calls.Announces (calls.commit c holder) () b c [] (.commit c holder) k { k with batch := none }
          batch.buffer batch.options) ∧
      ((∀ k batch, b.component? c = some k → k.batchOf? holder = some batch → batch.buffer = []) →
        (calls.commit c holder).Does b [.commit c holder] ())) ∧
    ∀ (k : Component Code) changes options, (k.called changes options).Sublist k.listeners ∧
      ∀ l, l ∈ k.called changes options ↔ l ∈ k.listeners ∧ options.notify = true ∧
        ∀ fields, l.fields = some fields → ∃ n ∈ changes.names, n ∈ fields := by
  intro b
  refine ⟨fun k hc => ?_, ?_, fun changes options => ⟨?_, ?_⟩, fun holder => ⟨?_, ?_⟩,
    fun k changes options => ?_⟩
  · obtain ⟨hranked, hlisteners⟩ := Backend.listeners_play store history hc
    refine ⟨hranked.1, hlisteners, fun id => ?_⟩
    rw [Backend.unlisten_of_component hc]
    obtain ⟨before, l, after, hsplit, hid, hunlisten⟩ | ⟨hnone, hunlisten⟩ := hranked.unlisten_cases id
    · exact .inl ⟨before, l, after, hsplit, hid, by rw [hunlisten]⟩
    · exact .inr ⟨hnone, by rw [hunlisten]⟩
  · intro pre mid fields fields' code code' l l' names names' first second
    rw [Backend.play_append] at second
    exact Backend.id_lt_of_listen (Backend.coherent_play store pre) first second
  · intro before adjusted k resolved h
    exact ⟨h.announces options, mem_names_resolve h.resolves⟩
  · exact fun h listener => Callbacks.update_of_not_stores options h listener
  · exact fun k batch hc within kept => Callbacks.announces_commit hc within kept
  · exact Callbacks.commit_of_nothing
  · unfold Component.called Component.listenersFor
    cases hnotify : options.notify with
    | false => simp
    | true => exact ⟨List.filter_sublist, fun l => by simp [Listener.wants_iff]⟩

namespace Sample

/-- Listeners that destroy their component. -/
def destroyingCalls : Callbacks Unit (Run Unit Unit) where
  view _ := view ⟨"app", "", "View"⟩ ""
  init _ _ := pure (.ok ())
  adjust _ _ changes := pure (.ok changes)
  request _ _ _ := pure (.ok ())
  listener _ c _ := Run.modify (.destroy c)
  task _ := pure ()
  body _ := pure (.ok .null)

/-- A component with a list gets four listeners, the first of which goes again. -/
def listening : List (Act Unit Unit) :=
  [.openSession {} {}, .enroll 1 (.custom ()) ⟨⟨"app", "", "View"⟩, "View", [], "", ""⟩, .activate 1,
    .change 1 [("xs", .arr [])] {}, .listen 1 none (), .listen 1 (some ["y"]) (), .unlisten 1 0,
    .listen 1 (some ["xs"]) (), .listen 1 none ()]

/-- The component with its listeners. -/
def listened : Component Unit where
  kind := .custom ()
  session := 1
  fields := [("xs", .arr [])]
  listeners := [⟨1, some ["y"], ()⟩, ⟨2, some ["xs"], ()⟩, ⟨3, none, ()⟩]
  nextListener := 4
  batch := none
  phase := .active

end Sample

/-- An item is appended to the list: the listener of another field is not called, and the last one is,
although the one before it destroys the component. -/
theorem dispatch_listening :
    let b := (Backend.init ()).play Sample.listening
    (∀ l, l ∈ Sample.listened.listeners ↔ (Backend.init ()).Attached 1 l Sample.listening) ∧
      (b.unlisten 1 2).1 = true ∧
      (Sample.destroyingCalls.update 1 [("xs__append", .int 7)] {}).acts b =
        [.change 1 [("xs__append", .int 7)] {}, .destroy 1, .destroy 1] := by
  intro b
  obtain ⟨hlisteners, -, hupdate, -⟩ := dispatch_calls_attached Sample.destroyingCalls () Sample.listening 1
  obtain ⟨-, hattached, hunlisten⟩ := hlisteners Sample.listened rfl
  obtain ⟨hannounces, -⟩ := (hupdate [("xs__append", .int 7)] {}).1 [] [("xs__append", .int 7)]
    Sample.listened [("xs__append", .int 7), ("xs", .arr [.int 7])]
    ⟨by simp, ⟨rfl, rfl⟩, by simp, rfl, by decide, rfl, rfl⟩
  refine ⟨hattached, ?_, hannounces.acts⟩
  obtain ⟨before, l, after, -, -, hanswer⟩ | ⟨hnone, -⟩ := hunlisten 2
  · exact congrArg Prod.fst hanswer
  · exact absurd rfl (hnone ⟨2, some ["xs"], ()⟩ (by simp [Sample.listened]))

end ViewSync
