import Mathlib.Data.List.Infix
import ViewSync.Proofs.Backend.Construction

/-!
# ViewSync.Proofs.Backend.Lifecycle

The life of a component as the other end sees it (`frame_lifecycle`): exactly one frame makes it known,
changes follow, and at most one deletion ends them. The first frame is there when the session was open
behind the creation of the component, the deletion when the session was open behind its destruction; and
nothing is sent by a session once it is closed.

Both are followed act by act: a frame of either kind is new behind an act exactly when the act was the
creation, or the destruction, and left the session open (`tells_effect`).
-/

namespace ViewSync

variable {Code Store α : Type}

/-- What a point of a course and the next act satisfy somewhere in a longer course, they satisfy before or
at its end. -/
theorem exists_prefix_concat {γ : Type} {P : List γ → γ → Prop} {pre : List γ} {a : γ} :
    (∃ mid x, mid ++ [x] <+: pre ++ [a] ∧ P mid x) ↔
      (∃ mid x, mid ++ [x] <+: pre ∧ P mid x) ∨ P pre a := by
  constructor
  · intro hpoint
    obtain ⟨mid, x, hmid, h⟩ := hpoint
    obtain heq | hmid := List.prefix_concat_iff.1 hmid
    · obtain ⟨rfl, hx⟩ := List.append_inj' heq rfl
      cases hx
      exact .inr h
    · exact .inl ⟨mid, x, hmid, h⟩
  · intro hpoint
    obtain ⟨mid, x, hmid, h⟩ | h := hpoint
    · exact ⟨mid, x, hmid.trans (List.prefix_append pre [a]), h⟩
    · exact ⟨pre, a, List.prefix_refl _, h⟩

namespace Backend

variable {b b' : Backend Code Store} {s : SessionId} {c : ComponentId} {a : Act Code Store}

/-- Between two states a component of a session was created, and the session was open afterwards. -/
def Appears (b b' : Backend Code Store) (s : SessionId) (c : ComponentId) : Prop :=
  b.component? c = none ∧ (∃ k, b'.component? c = some k ∧ k.session = s) ∧
    (b'.session s).isClosed = false

/-- Between two states a component of a session was destroyed, and the session was open afterwards. -/
def Vanishes (b b' : Backend Code Store) (s : SessionId) (c : ComponentId) : Prop :=
  (∃ k, b.component? c = some k ∧ k.session = s ∧ k.phase ≠ .destroyed) ∧
    (∃ k, b'.component? c = some k ∧ k.phase = .destroyed) ∧ b'.isOpen s = true

theorem not_appears_of_same (h : b'.component? c = b.component? c) : ¬ Appears b b' s c := by
  intro happears
  obtain ⟨hnone, ⟨k, hk, -⟩, -⟩ := happears
  rw [h, hnone] at hk
  cases hk

theorem not_vanishes_of_same (h : b'.component? c = b.component? c) : ¬ Vanishes b b' s c := by
  intro hvanishes
  obtain ⟨⟨k, hk, -, hlive⟩, ⟨k', hk', hphase⟩, -⟩ := hvanishes
  rw [h, hk] at hk'
  cases hk'
  exact hlive hphase

/-- What an act tells of a component in a session. -/
inductive Tells (b b' : Backend Code Store) (s : SessionId) (c : ComponentId) :
    Act Code Store → Prop
  | nothing {a : Act Code Store} (same : framesOf c (b'.sentTo s) = framesOf c (b.sentTo s))
      (here : ¬ Appears b b' s c) (stays : ¬ Vanishes b b' s c) : Tells b b' s c a
  | known {a : Act Code Store} {ref : String} (silent : framesOf c (b.sentTo s) = [])
      (told : framesOf c (b'.sentTo s) = [.create c ref]) (appears : Appears b b' s c)
      (stays : ¬ Vanishes b b' s c) : Tells b b' s c a
  | changed {a : Act Code Store} {changes : Fields} (known : framesOf c (b.sentTo s) ≠ [])
      (told : framesOf c (b'.sentTo s) = framesOf c (b.sentTo s) ++ [.change c changes])
      (here : ¬ Appears b b' s c) (stays : ¬ Vanishes b b' s c) : Tells b b' s c a
  | deleted {a : Act Code Store} (act : a = .destroy c ∨ a = .abandon c)
      (known : framesOf c (b.sentTo s) ≠ [])
      (told : framesOf c (b'.sentTo s) = framesOf c (b.sentTo s) ++ [.delete c])
      (here : ¬ Appears b b' s c) (vanishes : Vanishes b b' s c) : Tells b b' s c a

theorem tells_of_same (component : b'.component? c = b.component? c)
    (told : framesOf c (b'.sentTo s) = framesOf c (b.sentTo s)) : Tells b b' s c a :=
  .nothing told (not_appears_of_same component) (not_vanishes_of_same component)

/-- Something was told of a component while its session is open. -/
theorem Framed.told_of_isOpen {k : Component Code} (framed : Framed b c)
    (component : b.component? c = some k)
    (closed : (b.session k.session).isClosed = true → (b'.session k.session).isClosed = true)
    (hopen : b'.isOpen k.session = true) : framesOf c (b.sentTo k.session) ≠ [] := by
  intro hnil
  have hclosed := closed (framed.silent component hnil)
  rw [isClosed_of_isOpen hopen] at hclosed
  cases hclosed

theorem tells_close (coherent : Coherent b) (s s' : SessionId) (c : ComponentId) :
    Tells b (b.close s') s c (.close s' : Act Code Store) := by
  refine .nothing (by rw [sentTo_close]) ?_ ?_
  · intro happears
    obtain ⟨hnone, ⟨k, hk, -⟩, -⟩ := happears
    rw [component?_close, hnone] at hk
    split at hk <;> cases hk
  · intro hvanishes
    obtain ⟨⟨k, hk, rfl, hlive⟩, ⟨k', hk', hphase⟩, hopen⟩ := hvanishes
    rw [component?_close, hk] at hk'
    split at hk'
    · next hmem =>
      -- the components of the closed session are none of a session that is open
      obtain ⟨k₁, hk₁, rfl, -⟩ := coherent.member hmem
      rw [hk] at hk₁
      cases hk₁
      have hclosed := isClosed_of_isOpen hopen
      rw [b.isClosed_close (.inl rfl)] at hclosed
      cases hclosed
    · cases hk'
      exact hlive hphase

theorem tells_enrolled {s₁ : SessionId} {kind : Kind Code} {definition : ViewDefinition}
    (framed : Framed b c) (coherent : Coherent b) (parts : Enrolled b b' s₁ kind definition) :
    Tells b b' s c a := by
  have htold := framesOf_enrolled parts c s
  by_cases hc : c = b.nextComponent
  · have hnone : b.component? c = none := hc ▸ coherent.component?_nextComponent
    have hnew : b'.component? c = some (.new kind s₁) := by rw [parts.components, if_pos hc]
    have hstays : ¬ Vanishes b b' s c := by
      intro hvanishes
      obtain ⟨⟨k, hk, -⟩, -⟩ := hvanishes
      rw [hnone] at hk
      cases hk
    rw [framed.unknown hnone s, List.nil_append] at htold
    split at htold
    · next hsent =>
      obtain ⟨-, rfl, hopen⟩ := hsent
      rw [← hc] at htold
      exact .known (framed.unknown hnone s) htold ⟨hnone, ⟨_, hnew, rfl⟩, hopen⟩ hstays
    · next hunsent =>
      refine .nothing (by rw [htold, framed.unknown hnone s]) ?_ hstays
      intro happears
      obtain ⟨-, ⟨k, hk, rfl⟩, hopen⟩ := happears
      rw [hnew] at hk
      cases hk
      exact hunsent ⟨hc, rfl, hopen⟩
  · refine tells_of_same (by rw [parts.components, if_neg hc]) ?_
    rw [htold, if_neg fun hs => hc hs.1, List.append_nil]

theorem tells_retired {c₁ : ComponentId} {k : Component Code} (framed : Framed b c)
    (act : a = .destroy c₁ ∨ a = .abandon c₁) (component : b.component? c₁ = some k)
    (live : k.phase ≠ .destroyed) : Tells b (b.retired c₁ k) s c a := by
  have htold := framesOf_retired (b := b) c c₁ k s
  by_cases hc : c = c₁
  · subst hc
    have hnew : (b.retired c k).component? c = some k.retire := by
      rw [component?_retired, if_pos rfl]
    have hhere : ¬ Appears b (b.retired c k) s c := by
      intro happears
      obtain ⟨hnone, -⟩ := happears
      rw [component] at hnone
      cases hnone
    split at htold
    · next hsent =>
      obtain ⟨-, rfl, hopen⟩ := hsent
      exact .deleted act
        (framed.told_of_isOpen component (isClosed_retired · c k) hopen) htold hhere
        ⟨⟨k, component, rfl, live⟩, ⟨k.retire, hnew, rfl⟩, hopen⟩
    · next hunsent =>
      refine .nothing (by rw [htold, List.append_nil]) hhere ?_
      intro hvanishes
      obtain ⟨⟨k₁, hk₁, rfl, -⟩, -, hopen⟩ := hvanishes
      rw [component] at hk₁
      cases hk₁
      exact hunsent ⟨rfl, rfl, hopen⟩
  · refine tells_of_same (by rw [component?_retired, if_neg hc]) ?_
    rw [htold, if_neg fun hs => hc hs.1, List.append_nil]

theorem tells_touched {c₁ : ComponentId} {k k' : Component Code} {d : Option (Delivery Code)}
    (framed : Framed b c) (component : b.component? c₁ = some k) (touch : Touch c₁ k a k' d)
    (told : (b.tell c₁ k' d).Still b') : Tells b b' s c a := by
  have hcomponent : b'.component? c = if c = c₁ then some k' else b.component? c := by
    rw [told.components, component?_tell]
  by_cases hc : c = c₁
  · subst hc
    rw [if_pos rfl] at hcomponent
    have hhere : ¬ Appears b b' s c := by
      intro happears
      obtain ⟨hnone, -⟩ := happears
      rw [component] at hnone
      cases hnone
    have hstays : ¬ Vanishes b b' s c := by
      intro hvanishes
      obtain ⟨⟨k₁, hk₁, -, hlive⟩, ⟨k₂, hk₂, hphase⟩, -⟩ := hvanishes
      rw [component] at hk₁
      cases hk₁
      rw [hcomponent] at hk₂
      cases hk₂
      obtain hsame | ⟨-, hactive⟩ := touch.phase
      · exact hlive (hsame.symm.trans hphase)
      · rw [hactive] at hphase
        cases hphase
    cases d with
    | none => exact .nothing (by rw [told.sent]; rfl) hhere hstays
    | some d =>
        have htold := framesOf_tell_some (b := b) c c k' d s
        rw [← told.sent] at htold
        split at htold
        · next hsent =>
          obtain ⟨-, -, rfl, hopen⟩ := hsent
          rw [touch.session] at htold hopen hhere hstays ⊢
          exact .changed (framed.told_of_isOpen component (isClosed_tell · c k' (some d)) hopen)
            htold hhere hstays
        · exact .nothing (by rw [htold, List.append_nil]) hhere hstays
  · refine tells_of_same (by rw [hcomponent, if_neg hc]) ?_
    rw [told.sent]
    cases d with
    | none => rfl
    | some d => rw [framesOf_tell_some, if_neg fun hs => hc hs.1, List.append_nil]

/-- Every act tells nothing of a component, or makes it known, or tells one change or its deletion. -/
theorem tells_effect (framed : Framed b c) (coherent : Coherent b) (effect : Effect b a b')
    (unspoken : ∀ s m, a = .send s m → m.target? ≠ some c) (s : SessionId) : Tells b b' s c a := by
  cases effect with
  | still same => exact tells_of_same (same.components c) (by rw [same.sent])
  | opened config channel => exact tells_of_same rfl rfl
  | sent s' m =>
      refine tells_of_same ((b.sameParts_send s' m).components c) ?_
      rw [framesOf_send (unspoken s' m rfl)]
  | closed s' => exact tells_close coherent s s' c
  | skipped => exact tells_of_same rfl rfl
  | enrolled answer => exact tells_enrolled framed coherent (b.enrolled_parts answer)
  | retired act component live => exact tells_retired framed act component live
  | touched component touch told => exact tells_touched framed component touch told

/-! ## whole runs -/

section

variable {store : Store} {acts pre : List (Act Code Store)}
  (unspoken : ∀ s m, .send s m ∈ acts → m.target? ≠ some c)
  (notRevived : NotRevived (init store) acts c) (hpre : pre <+: acts)

include unspoken notRevived

theorem tells_play (hact : pre ++ [a] <+: acts) (s : SessionId) :
    Tells ((init store).play pre) (a.apply ((init store).play pre)) s c a := by
  have hpre : pre <+: acts := (List.prefix_append pre [a]).trans hact
  refine tells_effect (framed_play unspoken notRevived hpre) (coherent_play store pre)
    (effect_apply _ a) ?_ s
  intro s m heq
  subst heq
  exact unspoken s m (hact.subset (by simp))

include hpre

/-- Something was told of a component when it was created in the session and the session was open. -/
theorem known_play (s : SessionId) :
    framesOf c (((init store).play pre).sentTo s) ≠ [] ↔
      ∃ mid x, mid ++ [x] <+: pre ∧
        Appears ((init store).play mid) (x.apply ((init store).play mid)) s c := by
  refine play_induction (I := fun pre b => framesOf c (b.sentTo s) ≠ [] ↔ ∃ mid x,
    mid ++ [x] <+: pre ∧ Appears ((init store).play mid) (x.apply ((init store).play mid)) s c)
    ?_ ?_ hpre
  · simp [init, sentTo, framesOf]
  · intro pre a hact ih
    rw [exists_prefix_concat, ← ih]
    cases tells_play unspoken notRevived hact s with
    | nothing same here => simp [same, here]
    | known silent told appears => simp [told, appears]
    | changed known told here => simp [known, told]
    | deleted _ known told here => simp [known, told]

/-- The deletion of a component was told when it was destroyed and the session was open. -/
theorem deleted_play (s : SessionId) :
    .delete c ∈ framesOf c (((init store).play pre).sentTo s) ↔
      ∃ mid x, mid ++ [x] <+: pre ∧ (x = .destroy c ∨ x = .abandon c) ∧
        Vanishes ((init store).play mid) (x.apply ((init store).play mid)) s c := by
  refine play_induction (I := fun pre b => .delete c ∈ framesOf c (b.sentTo s) ↔ ∃ mid x,
    mid ++ [x] <+: pre ∧ (x = .destroy c ∨ x = .abandon c) ∧
      Vanishes ((init store).play mid) (x.apply ((init store).play mid)) s c) ?_ ?_ hpre
  · simp [init, sentTo, framesOf]
  · intro pre a hact ih
    rw [exists_prefix_concat (P := fun mid x => (x = .destroy c ∨ x = .abandon c) ∧
      Vanishes ((init store).play mid) (x.apply ((init store).play mid)) s c), ← ih]
    cases tells_play unspoken notRevived hact s with
    | nothing same _ stays => simp [same, stays]
    | known silent told _ stays => simp [silent, told, stays]
    | changed _ told _ stays => simp [told, stays]
    | deleted act _ told _ vanishes => simp [told, act, vanishes]

end

end Backend

/-- The life of a component as the other end sees it, in every run in which the component is not disturbed
while it is constructed and the program sends nothing about it itself. What a session sends about it is one
frame that makes it known, changes, and at most one deletion. The first is there exactly when the component
was created in that session and the session was open then, the last exactly when it was destroyed, by the
program or after it failed to be constructed, and the session was open then. Once the session or its channel
is closed, the session sends nothing any more. -/
theorem frame_lifecycle (calls : Callbacks Code (Prog Code Store)) (leave : Store → Store → Store)
    (fuel : Nat) (p : Prog Code Store α) (store : Store) {c : ComponentId}
    (undisturbed : Undisturbed (.init store) (p.course calls leave fuel store) c)
    (unspoken : ∀ s m, .send s m ∈ p.course calls leave fuel store → m.target? ≠ some c)
    {pre : List (Act Code Store)} (point : pre <+: p.course calls leave fuel store) (s : SessionId) :
    (framesOf c (((Backend.init store).play pre).sentTo s) = [] ∨
      ∃ ref, ∃ changes : List Fields, ∃ tail,
        framesOf c (((Backend.init store).play pre).sentTo s) =
          .create c ref :: (changes.map (.change c) ++ tail) ∧ (tail = [] ∨ tail = [.delete c])) ∧
    (framesOf c (((Backend.init store).play pre).sentTo s) ≠ [] ↔
      ∃ mid x, mid ++ [x] <+: pre ∧ Backend.Appears ((Backend.init store).play mid)
        (x.apply ((Backend.init store).play mid)) s c) ∧
    (.delete c ∈ framesOf c (((Backend.init store).play pre).sentTo s) ↔
      ∃ mid x, mid ++ [x] <+: pre ∧ (x = .destroy c ∨ x = .abandon c) ∧
        Backend.Vanishes ((Backend.init store).play mid)
          (x.apply ((Backend.init store).play mid)) s c) ∧
    (((Backend.init store).play pre).hasSession s = true →
      (((Backend.init store).play pre).session s).isClosed = true →
      ∀ mid, pre <+: mid → mid <+: p.course calls leave fuel store →
        ((Backend.init store).play mid).sentTo s = ((Backend.init store).play pre).sentTo s) := by
  have notRevived := notRevived_of_undisturbed calls leave fuel p store undisturbed
  have framed := Backend.framed_play unspoken notRevived point
  refine ⟨?_, Backend.known_play unspoken notRevived point s,
    Backend.deleted_play unspoken notRevived point s, ?_⟩
  · cases hc : ((Backend.init store).play pre).component? c with
    | none => exact .inl (framed.unknown hc s)
    | some k =>
        by_cases hs : s = k.session
        · subst hs
          obtain hnil | ⟨ref, changes, hms⟩ | ⟨before, ⟨ref, changes, rfl⟩, hms⟩ := framed.lived hc
          · exact .inl hnil
          · exact .inr ⟨ref, changes, [], by rw [hms, List.append_nil], .inl rfl⟩
          · exact .inr ⟨ref, changes, [.delete c], hms, .inr rfl⟩
        · exact .inl (framed.elsewhere hc s hs)
  · intro hs hclosed mid hmid _
    obtain ⟨more, rfl⟩ := hmid
    rw [Backend.play_append]
    exact Backend.sentTo_play_of_isClosed (Backend.coherent_play store pre) hs hclosed more

/-! ## the life of one component -/

theorem undisturbed_retiring : Undisturbed (.init ()) (Sample.course Sample.retiring) 1 := by
  have hall : ∀ n < 10,
      (((Backend.init ()).play ((Sample.course Sample.retiring).take n)).component? 1).any
        (·.phase = .constructing) = true →
      ((Sample.course Sample.retiring)[n]?).all (fun
        | .destroy _ => false
        | .close _ => false
        | _ => true) = true := by decide
  have hnext : ∀ {pre a}, pre ++ [a] <+: Sample.course Sample.retiring →
      pre.length < 10 ∧ pre = (Sample.course Sample.retiring).take pre.length ∧
        (Sample.course Sample.retiring)[pre.length]? = some a := by
    intro pre a hpoint
    obtain ⟨more, hmore⟩ := hpoint
    have hlength : (Sample.course Sample.retiring).length = 10 := rfl
    rw [← hmore] at hlength ⊢
    refine ⟨?_, by simp, by simp⟩
    simp only [List.length_append, List.length_singleton] at hlength
    omega
  intro pre k component phase
  refine ⟨fun hact => ?_, fun hact => ?_⟩
  all_goals
    obtain ⟨hlt, hpre, hget⟩ := hnext hact
    have hnot := hall pre.length hlt (by rw [← hpre, component]; simp [phase])
    rw [hget] at hnot
    cases hnot

/-- The component of the sample is made known, gets its list, and its deletion is told. -/
theorem retiring_lifecycle :
    framesOf 1 (((Backend.init ()).play (Sample.course Sample.retiring)).sentTo 1) =
        [.create 1 "app::View", .change 1 [("items", .arr [])], .delete 1] ∧
      (∃ mid x, mid ++ [x] <+: Sample.course Sample.retiring ∧
        Backend.Appears ((Backend.init ()).play mid) (x.apply ((Backend.init ()).play mid)) 1 1) ∧
      ∃ mid x, mid ++ [x] <+: Sample.course Sample.retiring ∧
        (x = .destroy 1 ∨ x = .abandon 1) ∧
        Backend.Vanishes ((Backend.init ()).play mid) (x.apply ((Backend.init ()).play mid)) 1 1 := by
  have hframes : framesOf 1 (((Backend.init ()).play (Sample.course Sample.retiring)).sentTo 1) =
      [.create 1 "app::View", .change 1 [("items", .arr [])], .delete 1] := rfl
  have hknown :
      framesOf 1 (((Backend.init ()).play (Sample.course Sample.retiring)).sentTo 1) ≠ [] := by
    rw [hframes]
    nofun
  have hdeleted : .delete 1 ∈
      framesOf 1 (((Backend.init ()).play (Sample.course Sample.retiring)).sentTo 1) := by
    rw [hframes]
    simp
  have hunspoken : ∀ s m, .send s m ∈ Sample.course Sample.retiring → m.target? ≠ some 1 := by
    intro s m hmem
    simp [Sample.course_retiring] at hmem
  obtain ⟨-, known, deleted, -⟩ := frame_lifecycle _ _ _ Sample.retiring () undisturbed_retiring
    hunspoken (List.prefix_refl _) 1
  exact ⟨hframes, known.1 hknown, deleted.1 hdeleted⟩

end ViewSync
