import ViewSync.Proofs.Backend.Coherent

/-!
# ViewSync.Proofs.Backend.Frames

The frames about one component: it is made known once, then changes are told, and at most one deletion ends
them. The sessions of other components say nothing of it.

`Framed` states this for one point of a run, together with what carries it: a component of which nothing was
told belongs to a closed session, so nothing will be told of it either. It needs that the program sends no
messages about the component itself, and that the component does not come back: that its construction does
not end when it is destroyed already (`NotRevived`).
-/

namespace ViewSync

variable {Code Store : Type}

/-! ## frames about a component -/

/-- The component that a message is about. -/
def Message.target? : Message → Option ComponentId
  | .define .. => none
  | .create id _ => some id
  | .change id _ => some id
  | .delete id => some id
  | .request id _ => some id

/-- The messages about a component. -/
def framesOf (c : ComponentId) (ms : List Message) : List Message :=
  ms.filter fun m => m.target? = some c

theorem framesOf_append (c : ComponentId) (ms more : List Message) :
    framesOf c (ms ++ more) = framesOf c ms ++ framesOf c more :=
  List.filter_append ms more

theorem framesOf_eq_nil {c : ComponentId} {ms : List Message} (h : ∀ m ∈ ms, m.target? ≠ some c) :
    framesOf c ms = [] := by
  rw [framesOf, List.filter_eq_nil_iff]
  exact fun m hm => by simpa using h m hm

/-- The frames of a component that is there: it is made known, and changes are told. -/
def Living (c : ComponentId) (ms : List Message) : Prop :=
  ∃ (ref : String) (changes : List Fields), ms = .create c ref :: changes.map (.change c)

theorem Living.change {c : ComponentId} {ms : List Message} (h : Living c ms) (changes : Fields) :
    Living c (ms ++ [.change c changes]) := by
  obtain ⟨ref, earlier, rfl⟩ := h
  exact ⟨ref, earlier ++ [changes], by simp⟩

/-- The frames of a component, whether it is there or not: they may end with a deletion. -/
def Lived (c : ComponentId) (ms : List Message) : Prop :=
  Living c ms ∨ ∃ before, Living c before ∧ ms = before ++ [.delete c]

/-- Nothing is told of a component after its deletion. -/
theorem Lived.nil_of_delete {c : ComponentId} {before after : List Message}
    (h : Lived c (before ++ .delete c :: after)) : after = [] := by
  have hliving : ∀ {ms}, Living c ms → .delete c ∉ ms := by
    intro ms hliving
    obtain ⟨ref, changes, rfl⟩ := hliving
    simp
  obtain h | ⟨ms, h, hms⟩ := h
  · exact absurd (by simp) (hliving h)
  · cases after using List.reverseRecOn with
    | nil => rfl
    | append_singleton after m _ =>
        -- the deletion would be among the frames in front of the last one
        rw [← List.cons_append, ← List.append_assoc] at hms
        obtain ⟨hms, -⟩ := List.append_inj' hms rfl
        exact absurd (by rw [← hms]; simp) (hliving h)

/-! ## one point of a run -/

/-- The construction of a component does not end once the component is destroyed. -/
def NotRevived (b : Backend Code Store) (acts : List (Act Code Store)) (c : ComponentId) : Prop :=
  ∀ pre k, pre ++ [.activate c] <+: acts → (b.play pre).component? c = some k → k.phase ≠ .destroyed

namespace Backend

/-- What was told of a component. -/
structure Framed (b : Backend Code Store) (c : ComponentId) : Prop where
  unknown : b.component? c = none → ∀ s, framesOf c (b.sentTo s) = []
  elsewhere : ∀ {k}, b.component? c = some k → ∀ s, s ≠ k.session → framesOf c (b.sentTo s) = []
  living : ∀ {k}, b.component? c = some k → k.phase ≠ .destroyed →
    framesOf c (b.sentTo k.session) = [] ∨ Living c (framesOf c (b.sentTo k.session))
  lived : ∀ {k}, b.component? c = some k →
    framesOf c (b.sentTo k.session) = [] ∨ Lived c (framesOf c (b.sentTo k.session))
  silent : ∀ {k}, b.component? c = some k → framesOf c (b.sentTo k.session) = [] →
    (b.session k.session).isClosed = true

theorem framed_init (store : Store) (c : ComponentId) :
    Framed (init store : Backend Code Store) c where
  unknown _ _ := rfl
  elsewhere h := by cases h
  living h := by cases h
  lived h := by cases h
  silent h := by cases h

variable {b b' : Backend Code Store} {c : ComponentId} {a : Act Code Store}

/-- Nothing changes for a component when an act leaves it alone, tells nothing of it and opens no session. -/
theorem Framed.of_same (h : Framed b c) (component : b'.component? c = b.component? c)
    (told : ∀ s, framesOf c (b'.sentTo s) = framesOf c (b.sentTo s))
    (closed : ∀ {k}, b.component? c = some k → (b.session k.session).isClosed = true →
      (b'.session k.session).isClosed = true) : Framed b' c where
  unknown hc s := by
    rw [told]
    exact h.unknown (component ▸ hc) s
  elsewhere hc s hs := by
    rw [told]
    exact h.elsewhere (component ▸ hc) s hs
  living hc := by
    rw [told]
    exact h.living (component ▸ hc)
  lived hc := by
    rw [told]
    exact h.lived (component ▸ hc)
  silent hc hnil := by
    rw [told] at hnil
    exact closed (component ▸ hc) (h.silent (component ▸ hc) hnil)

/-- A message about something else adds no frame of the component. -/
theorem framesOf_send {m : Message} (h : m.target? ≠ some c) (s s' : SessionId) :
    framesOf c ((b.send s m).sentTo s') = framesOf c (b.sentTo s') := by
  have hnone : framesOf c [m] = [] := framesOf_eq_nil fun m' hm' => List.mem_singleton.1 hm' ▸ h
  rw [sentTo_send, framesOf_append]
  split
  · rw [hnone, List.append_nil]
  · exact List.append_nil _

theorem Framed.close (h : Framed b c) (s : SessionId) : Framed (b.close s) c := by
  have hretired : ∀ {k'}, (b.close s).component? c = some k' →
      ∃ k, b.component? c = some k ∧ k'.session = k.session ∧
        (k'.phase ≠ .destroyed → k.phase ≠ .destroyed) := by
    intro k' hc
    rw [component?_close] at hc
    split at hc
    · obtain ⟨k, hk, rfl⟩ := Option.map_eq_some_iff.1 hc
      exact ⟨k, hk, rfl, fun hphase => absurd rfl hphase⟩
    · exact ⟨k', hc, rfl, id⟩
  refine ⟨fun hc s' => ?_, fun hc s' hs => ?_, fun hc hphase => ?_, fun hc => ?_, fun hc hnil => ?_⟩
  · rw [sentTo_close]
    refine h.unknown ?_ s'
    rw [component?_close] at hc
    split at hc
    · exact Option.map_eq_none_iff.1 hc
    · exact hc
  · obtain ⟨k, hk, hsession, -⟩ := hretired hc
    rw [sentTo_close]
    exact h.elsewhere hk s' (hsession ▸ hs)
  · obtain ⟨k, hk, hsession, hlive⟩ := hretired hc
    rw [sentTo_close, hsession]
    exact h.living hk (hlive hphase)
  · obtain ⟨k, hk, hsession, -⟩ := hretired hc
    rw [sentTo_close, hsession]
    exact h.lived hk
  · obtain ⟨k, hk, hsession, -⟩ := hretired hc
    rw [sentTo_close, hsession] at hnil
    rw [hsession]
    exact b.isClosed_close (.inr (h.silent hk hnil))

/-! ## a component that is created -/

/-- The frames that a creation adds are about the new component. -/
theorem framesOf_enrolled {s : SessionId} {kind : Kind Code} {definition : ViewDefinition}
    (parts : Enrolled b b' s kind definition) (c : ComponentId) (s' : SessionId) :
    framesOf c (b'.sentTo s') = framesOf c (b.sentTo s') ++
      if c = b.nextComponent ∧ s' = s ∧ (b'.session s).isClosed = false
      then [.create b.nextComponent definition.viewRef.render] else [] := by
  have hfirst : framesOf c (b.firstUse s definition) = [] := by
    refine framesOf_eq_nil fun m hm => ?_
    unfold firstUse at hm
    split at hm
    · cases hm
    · obtain rfl := List.mem_singleton.1 hm
      simp [Message.target?]
  have hcreate : framesOf c [Message.create b.nextComponent definition.viewRef.render] =
      if c = b.nextComponent then [.create b.nextComponent definition.viewRef.render] else [] := by
    by_cases hc : c = b.nextComponent
    · simp [framesOf, Message.target?, hc]
    · simp [framesOf, Message.target?, hc, Ne.symm hc]
  by_cases hs : s' = s
  · subst hs
    cases hclosed : (b'.session s').isClosed with
    | false =>
        rw [parts.sent hclosed, framesOf_append, framesOf_append, hfirst, List.nil_append, hcreate]
        simp
    | true =>
        obtain hsent | hsent := parts.unsent hclosed
        · simp [hsent]
        · simp [hsent, framesOf_append, hfirst]
  · rw [parts.elsewhere s' hs]
    simp [hs]

theorem Framed.enrolled {s : SessionId} {kind : Kind Code} {definition : ViewDefinition}
    (h : Framed b c) (coherent : Coherent b) (parts : Enrolled b b' s kind definition) :
    Framed b' c := by
  have htold := framesOf_enrolled parts c
  by_cases hc : c = b.nextComponent
  · have hunknown : b.component? c = none := hc ▸ coherent.component?_nextComponent
    have hnew : b'.component? c = some (.new kind s) := by rw [parts.components, if_pos hc]
    have hframes : framesOf c (b'.sentTo s) =
        if (b'.session s).isClosed = false then [.create c definition.viewRef.render] else [] := by
      rw [htold, h.unknown hunknown, List.nil_append]
      simp [hc]
    have hliving : framesOf c (b'.sentTo s) = [] ∨ Living c (framesOf c (b'.sentTo s)) := by
      rw [hframes]
      split
      · exact .inr ⟨definition.viewRef.render, [], rfl⟩
      · exact .inl rfl
    refine ⟨fun hc' => ?_, fun hc' s' hs => ?_, fun hc' _ => ?_, fun hc' => ?_, fun hc' hnil => ?_⟩
    all_goals
      rw [hnew] at hc'
      cases hc'
    · rw [htold, h.unknown hunknown, if_neg fun hs' => hs hs'.2.1]
      rfl
    · exact hliving
    · exact hliving.imp_right .inl
    · change framesOf c (b'.sentTo s) = [] at hnil
      change (b'.session s).isClosed = true
      rw [hframes] at hnil
      split at hnil
      · cases hnil
      · next hclosed => simpa using hclosed
  · refine h.of_same (by rw [parts.components, if_neg hc]) (fun s' => ?_) fun _ => parts.closed _
    rw [htold, if_neg fun hs => hc hs.1, List.append_nil]

/-! ## a component that is destroyed -/

/-- The frame that a destruction adds is about the destroyed component. -/
theorem framesOf_retired (c c₁ : ComponentId) (k : Component Code) (s : SessionId) :
    framesOf c ((b.retired c₁ k).sentTo s) = framesOf c (b.sentTo s) ++
      if c = c₁ ∧ k.session = s ∧ (b.retired c₁ k).isOpen s = true then [.delete c] else [] := by
  rw [sentTo_retired, framesOf_append]
  congr 1
  by_cases hc : c = c₁
  · subst hc
    split <;> simp_all [framesOf, Message.target?]
  · split <;> simp [framesOf, Message.target?, hc, Ne.symm hc]

theorem isClosed_of_isOpen {s : SessionId} (h : b.isOpen s = true) :
    (b.session s).isClosed = false := by
  simpa [isOpen] using (Bool.and_eq_true_iff.1 h).2

theorem Framed.retired {c₁ : ComponentId} {k : Component Code} (h : Framed b c)
    (component : b.component? c₁ = some k) (live : k.phase ≠ .destroyed) :
    Framed (b.retired c₁ k) c := by
  have htold := fun s => framesOf_retired (b := b) c c₁ k s
  by_cases hc : c = c₁
  · subst hc
    have hnew : (b.retired c k).component? c = some k.retire := by
      rw [component?_retired, if_pos rfl]
    have hclosed := isClosed_retired (s := k.session) (c := c) (k := k) (b := b)
    refine ⟨fun hc' => ?_, fun hc' s hs => ?_, fun hc' hphase => ?_, fun hc' => ?_,
      fun hc' hnil => ?_⟩
    all_goals
      rw [hnew] at hc'
      cases hc'
    · rw [htold, h.elsewhere component s hs, if_neg fun hs' => hs hs'.2.1.symm]
      rfl
    · exact absurd rfl hphase
    · change framesOf c ((b.retired c k).sentTo k.session) = [] ∨
        Lived c (framesOf c ((b.retired c k).sentTo k.session))
      rw [htold]
      obtain hnil | hliving := h.living component live
      · -- nothing was told of it because its session is closed, and that it stays
        have hshut : (b.retired c k).isOpen k.session = false := by
          rw [isOpen, hclosed (h.silent component hnil)]
          simp
        rw [hnil, hshut]
        exact .inl (by simp)
      · refine .inr ?_
        split
        · exact .inr ⟨_, hliving, rfl⟩
        · rw [List.append_nil]
          exact .inl hliving
    · change framesOf c ((b.retired c k).sentTo k.session) = [] at hnil
      rw [htold, List.append_eq_nil_iff] at hnil
      exact hclosed (h.silent component hnil.1)
  · refine h.of_same (by rw [component?_retired, if_neg hc]) (fun s => ?_)
      fun _ hclosed => isClosed_retired hclosed _ _
    rw [htold, if_neg fun hs => hc hs.1, List.append_nil]

/-! ## a component that is touched -/

/-- The frame that a touch adds is about the touched component. -/
theorem framesOf_tell_some (c c₁ : ComponentId) (k : Component Code) (d : Delivery Code)
    (s : SessionId) :
    framesOf c ((b.tell c₁ k (some d)).sentTo s) = framesOf c (b.sentTo s) ++
      if c = c₁ ∧ d.options.forward = true ∧ k.session = s ∧ (b.tell c₁ k (some d)).isOpen s = true
      then [.change c d.changes] else [] := by
  rw [sentTo_tell_some, framesOf_append]
  congr 1
  by_cases hc : c = c₁
  · subst hc
    split <;> simp_all [framesOf, Message.target?]
  · split <;> simp [framesOf, Message.target?, hc, Ne.symm hc]

/-- What is told of a component that is touched: at most one change, in its own session, while it lives and the session
is open. -/
theorem framesOf_tell_of_touch {k k' : Component Code} {d : Option (Delivery Code)} (touch : Touch c k a k' d)
    (coherent : Coherent b) (component : b.component? c = some k) :
    (∀ s, s ≠ k.session → framesOf c ((b.tell c k' d).sentTo s) = framesOf c (b.sentTo s)) ∧
      (framesOf c ((b.tell c k' d).sentTo k.session) = framesOf c (b.sentTo k.session) ∨
        k.phase ≠ .destroyed ∧ (b.session k.session).isClosed = false ∧ ∃ changes,
          framesOf c ((b.tell c k' d).sentTo k.session) =
            framesOf c (b.sentTo k.session) ++ [.change c changes]) := by
  cases d with
  | none => exact ⟨fun _ _ => rfl, .inl rfl⟩
  | some d =>
      refine ⟨fun s hs => ?_, ?_⟩
      · rw [framesOf_tell_some, if_neg fun hs' => hs (hs'.2.2.1.symm.trans touch.session), List.append_nil]
      · rw [framesOf_tell_some]
        split
        · next hsent =>
          refine .inr ⟨fun hphase => ?_, ?_, d.changes, rfl⟩
          · cases (touch.destroyed hphase (coherent.unbatched component hphase)).2
          · have hopen := isClosed_of_isOpen hsent.2.2.2
            cases hclosed : (b.session k.session).isClosed with
            | false => rfl
            | true =>
                rw [isClosed_tell hclosed] at hopen
                cases hopen
        · exact .inl (List.append_nil _)

/-- A touch keeps the frames of the component that is touched in order. -/
theorem Framed.touched_self {k k' : Component Code} {d : Option (Delivery Code)} (h : Framed b c)
    (coherent : Coherent b) (component : b.component? c = some k) (touch : Touch c k a k' d)
    (notRevived : a = .activate c → ∀ k, b.component? c = some k → k.phase ≠ .destroyed) :
    Framed (b.tell c k' d) c := by
  have hnew : (b.tell c k' d).component? c = some k' := by
    rw [(sameParts_tell b c k' d).components, component?_setComponent, if_pos rfl]
  have hlive : k'.phase ≠ .destroyed → k.phase ≠ .destroyed := by
    obtain hsame | ⟨hact, -⟩ := touch.phase
    · rw [hsame]
      exact id
    · exact fun _ => notRevived hact k component
  obtain ⟨helsewhere, htold⟩ := framesOf_tell_of_touch touch coherent component
  refine ⟨fun hc' => ?_, fun hc' s hs => ?_, fun hc' hphase => ?_, fun hc' => ?_, fun hc' hnil => ?_⟩
  all_goals
    rw [hnew] at hc'
    cases hc'
  · rw [helsewhere s (touch.session ▸ hs)]
    exact h.elsewhere component s (touch.session ▸ hs)
  · rw [touch.session]
    obtain hsame | ⟨-, hopen, changes, hmore⟩ := htold
    · rw [hsame]
      exact h.living component (hlive hphase)
    · obtain hnil | hliving := h.living component (hlive hphase)
      · rw [h.silent component hnil] at hopen
        cases hopen
      · rw [hmore]
        exact .inr (hliving.change changes)
  · rw [touch.session]
    obtain hsame | ⟨hphase, hopen, changes, hmore⟩ := htold
    · rw [hsame]
      exact h.lived component
    · obtain hnil | hliving := h.living component hphase
      · rw [h.silent component hnil] at hopen
        cases hopen
      · rw [hmore]
        exact .inr (.inl (hliving.change changes))
  · rw [touch.session] at hnil ⊢
    refine isClosed_tell (h.silent component ?_) c k' d
    obtain hsame | ⟨-, -, changes, hmore⟩ := htold
    · rwa [hsame] at hnil
    · simp [hmore] at hnil

theorem Framed.touched {c₁ : ComponentId} {k k' : Component Code} {d : Option (Delivery Code)}
    (h : Framed b c) (coherent : Coherent b) (component : b.component? c₁ = some k)
    (touch : Touch c₁ k a k' d)
    (notRevived : a = .activate c → ∀ k, b.component? c = some k → k.phase ≠ .destroyed) :
    Framed (b.tell c₁ k' d) c := by
  by_cases hc : c = c₁
  · subst hc
    exact h.touched_self coherent component touch notRevived
  · refine h.of_same ?_ (fun s => ?_) fun _ hclosed => isClosed_tell hclosed _ _ _
    · rw [(sameParts_tell b c₁ k' d).components, component?_setComponent, if_neg hc]
    · cases d with
      | none => rfl
      | some d => rw [framesOf_tell_some, if_neg fun hs => hc hs.1, List.append_nil]

/-! ## every act -/

theorem Framed.effect (h : Framed b c) (coherent : Coherent b) (effect : Effect b a b')
    (unspoken : ∀ s m, a = .send s m → m.target? ≠ some c)
    (notRevived : a = .activate c → ∀ k, b.component? c = some k → k.phase ≠ .destroyed) :
    Framed b' c := by
  cases effect with
  | still same =>
      exact h.of_same (same.components c) (fun s => by rw [same.sent]) fun _ => same.closed _
  | opened config channel =>
      refine h.of_same rfl (fun _ => rfl) fun hk hclosed => ?_
      rw [session_openSession, if_neg (Nat.ne_of_lt (coherent.session_lt (coherent.home hk)))]
      exact hclosed
  | sent s m =>
      exact h.of_same ((b.sameParts_send s m).components c)
        (fun s' => framesOf_send (unspoken s m rfl) s s') fun _ hclosed => b.isClosed_send hclosed m
  | closed s => exact h.close s
  | skipped => exact h.of_same rfl (fun _ => rfl) fun _ => id
  | enrolled answer => exact h.enrolled coherent (b.enrolled_parts answer)
  | retired _ component live => exact h.retired component live
  | touched component touch told =>
      exact (h.touched coherent component touch notRevived).of_same (told.components c)
        (fun s => by rw [told.sent]) fun _ => told.closed _

/-- What was told of a component, at every point of a run in which it does not come back. -/
theorem framed_play {store : Store} {acts pre : List (Act Code Store)}
    (unspoken : ∀ s m, .send s m ∈ acts → m.target? ≠ some c)
    (notRevived : NotRevived (init store) acts c) (hpre : pre <+: acts) :
    Framed ((init store : Backend Code Store).play pre) c := by
  refine play_induction (I := fun _ b => Framed b c) (framed_init store c) ?_ hpre
  intro pre a hact h
  have hmem : a ∈ acts := hact.subset (by simp)
  refine h.effect (coherent_play store pre) (effect_apply _ a) ?_ ?_
  · intro s m heq
    subst heq
    exact unspoken s m hmem
  · intro heq k
    subst heq
    exact notRevived pre k hact

end Backend

end ViewSync
