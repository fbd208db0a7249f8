import ViewSync.Proofs.Backend.Execute
import ViewSync.Proofs.Backend.Frames

/-!
# ViewSync.Proofs.Backend.Construction

The construction of a component, from its creation to its end. In a run the construction of a component
ends at most once, so nothing but code that runs in between can destroy the component before
(`disturbed_of_activate`). If the code that runs in between destroys neither the component nor closes its
session, the component does not come back (`notRevived_of_undisturbed`).
-/

namespace ViewSync

variable {Code Store α : Type}

open Backend

/-! ## what ends a construction -/

namespace Backend

variable {views : Kind Code → ViewType} {b b' : Backend Code Store} {c : ComponentId}
  {k : Component Code} {a : Act Code Store}

/-- An act destroys a component, or closes a session with the component in its arena. -/
def Disturbs (b : Backend Code Store) (c : ComponentId) (a : Act Code Store) : Prop :=
  a = .destroy c ∨ ∃ s, a = .close s ∧ c ∈ (b.session s).arena

/-- Only the end of its construction, its destruction and the end of its session change the phase of a
component. -/
theorem phase_effect (coherent : Coherent b) (effect : Effect b a b')
    (component : b.component? c = some k) :
    (∃ k', b'.component? c = some k' ∧ k'.phase = k.phase) ∨ a = .activate c ∨ a = .abandon c ∨
      Disturbs b c a := by
  obtain ⟨k', hk', fate⟩ := fate_effect coherent effect component
  cases fate with
  | same => exact .inl ⟨k, hk', rfl⟩
  | retired act =>
      obtain hact | hact := act
      · exact .inr (.inr (.inr (.inl hact)))
      · exact .inr (.inr (.inl hact))
  | @released s mem => exact .inr (.inr (.inr (.inr ⟨s, rfl, mem⟩)))
  | touched touch =>
      obtain hsame | ⟨hact, -⟩ := touch.phase
      · exact .inl ⟨k', hk', hsame⟩
      · exact .inr (.inl hact)

/-- A component whose construction does not end, but that is not under construction any more, was
disturbed. -/
theorem disturbed_of_not_constructing (coherent : Coherent b) {acts : List (Act Code Store)}
    (component : b.component? c = some k) (phase : k.phase = .constructing)
    (open_ : .activate c ∉ acts ∧ .abandon c ∉ acts) {k' : Component Code}
    (later : (b.play acts).component? c = some k') (changed : k'.phase ≠ .constructing) :
    ∃ mid a k₀, mid ++ [a] <+: acts ∧ (b.play mid).component? c = some k₀ ∧
      k₀.phase = .constructing ∧ Disturbs (b.play mid) c a := by
  induction acts generalizing b k with
  | nil =>
      rw [play_nil, component] at later
      cases later
      exact absurd phase changed
  | cons a acts ih =>
      obtain ⟨hactivate, habandon⟩ := open_
      rw [List.mem_cons, not_or] at hactivate habandon
      obtain ⟨k₁, hk₁, hphase⟩ | hact | hact | hdisturbs :=
        phase_effect coherent (effect_apply b a) component
      · obtain ⟨mid, a', k₀, hmid, hk₀⟩ := ih (coherent.apply a) hk₁ (hphase.trans phase)
          ⟨hactivate.2, habandon.2⟩ later
        exact ⟨a :: mid, a', k₀, by simpa using hmid, hk₀⟩
      · exact absurd hact.symm hactivate.1
      · exact absurd hact.symm habandon.1
      · exact ⟨[], a, k, by simp, component, phase, hdisturbs⟩

/-- A component that was created has the next number. -/
theorem eq_nextComponent_of_enroll {s : SessionId} {kind : Kind Code} {definition : ViewDefinition}
    (h : (b.enroll s kind definition).1 = .ok c) : c = b.nextComponent := by
  obtain ⟨e, herror⟩ | ⟨-, -, hok⟩ := b.enroll_cases s kind definition
  · rw [herror] at h
    cases h
  · rw [hok] at h
    exact (Except.ok.inj h).symm

/-- What is behind a creation, told from its answer alone. -/
theorem enrolled_of_enroll {s : SessionId} {kind : Kind Code} {definition : ViewDefinition}
    (h : (b.enroll s kind definition).1 = .ok c) :
    Enrolled b (b.enroll s kind definition).2 s kind definition :=
  b.enrolled_parts (Prod.ext (eq_nextComponent_of_enroll h ▸ h) rfl)

/-- The constructions that end in a course began in it. -/
theorem le_of_concludes {acts : List (Act Code Store)} (h : Course views b acts) (hmem : a ∈ acts)
    (hc : a = .activate c ∨ a = .abandon c) : b.nextComponent ≤ c := by
  have hplain : ¬ a.Plain views := by
    obtain rfl | rfl := hc
    · exact id
    · exact id
  induction h with
  | nil => cases hmem
  | @act b x rest plain next ih =>
      obtain rfl | hmem := List.mem_cons.1 hmem
      · exact absurd plain hplain
      · exact Nat.le_trans (nextComponent_effect (effect_apply b x)) (ih hmem)
  | @creation b s kind definition c₁ inner rest last _ enrolled _ concluded _ ihinner ihrest =>
      have hnext := (enrolled_of_enroll enrolled).nextComponent
      obtain rfl | hmem := List.mem_cons.1 hmem
      · obtain h | h := hc <;> cases h
      obtain hmem | hmem := List.mem_append.1 hmem
      · exact Nat.le_trans (hnext ▸ Nat.le_succ _) (ihinner hmem)
      obtain rfl | hmem := List.mem_cons.1 hmem
      · -- the construction that ends here is the one that began with this creation
        have hcc : c = c₁ := by
          obtain rfl | rfl := hc <;> obtain h | h := concluded <;> cases h <;> rfl
        exact Nat.le_of_eq (hcc.trans (eq_nextComponent_of_enroll enrolled)).symm
      · have hinner := nextComponent_play (b.enroll s kind definition).2 inner
        have hlast := nextComponent_effect
          (effect_apply ((b.enroll s kind definition).2.play inner) last)
        have hrest := ihrest hmem
        exact Nat.le_trans (Nat.le_trans (hnext ▸ Nat.le_succ _) hinner) (Nat.le_trans hlast hrest)

/-- The constructions that end in a course are of components that are there behind it. -/
theorem lt_of_concludes {acts : List (Act Code Store)} (h : Course views b acts) (hmem : a ∈ acts)
    (hc : a = .activate c ∨ a = .abandon c) : c < (b.play acts).nextComponent := by
  have hplain : ¬ a.Plain views := by
    obtain rfl | rfl := hc
    · exact id
    · exact id
  induction h with
  | nil => cases hmem
  | act plain _ ih =>
      obtain rfl | hmem := List.mem_cons.1 hmem
      · exact absurd plain hplain
      · exact ih hmem
  | @creation b s kind definition c₁ inner rest last _ enrolled _ concluded _ ihinner ihrest =>
      have hnext := (enrolled_of_enroll enrolled).nextComponent
      have hlast := nextComponent_effect (effect_apply ((b.enroll s kind definition).2.play inner) last)
      have hrest := nextComponent_play (last.apply ((b.enroll s kind definition).2.play inner)) rest
      have hlater := Nat.le_trans hlast hrest
      rw [play_cons, play_append, play_cons]
      obtain rfl | hmem := List.mem_cons.1 hmem
      · obtain h | h := hc <;> cases h
      obtain hmem | hmem := List.mem_append.1 hmem
      · exact Nat.lt_of_lt_of_le (ihinner hmem) hlater
      obtain rfl | hmem := List.mem_cons.1 hmem
      · have hcc : c = c₁ := by
          obtain rfl | rfl := hc <;> obtain h | h := concluded <;> cases h <;> rfl
        have hnew : c < (b.enroll s kind definition).2.nextComponent := by
          rw [hnext, hcc, eq_nextComponent_of_enroll enrolled]
          exact Nat.lt_succ_self _
        exact Nat.lt_of_lt_of_le hnew (Nat.le_trans (nextComponent_play _ inner) hlater)
      · exact ihrest hmem

/-- The construction of a component ends with its activation at most once. -/
theorem activate_once {acts : List (Act Code Store)} (h : Course views b acts)
    {pre : List (Act Code Store)} (hact : pre ++ [.activate c] <+: acts) : .activate c ∉ pre := by
  induction h generalizing pre with
  | nil => simp at hact
  | @act b x rest plain next ih =>
      cases pre with
      | nil => exact List.not_mem_nil
      | cons y pre =>
          obtain ⟨rfl, hrest⟩ := List.cons_prefix_cons.1 hact
          refine List.not_mem_cons_of_ne_of_not_mem (fun heq => ?_) (ih hrest)
          rw [← heq] at plain
          cases plain
  | @creation b s kind definition c₁ inner rest last _ enrolled construction concluded next ihinner
      ihrest =>
      cases pre with
      | nil => exact List.not_mem_nil
      | cons y pre =>
          obtain ⟨rfl, hbehind⟩ := List.cons_prefix_cons.1 hact
          refine List.not_mem_cons_of_ne_of_not_mem nofun ?_
          have hc : c₁ = b.nextComponent := eq_nextComponent_of_enroll enrolled
          have hnew := (enrolled_of_enroll enrolled).nextComponent
          obtain hin | ⟨rfl, hlast⟩ | ⟨pre', rfl, hrest⟩ := prefix_append_cons hbehind
          · exact ihinner hin
          · -- what ends here began with this creation, the constructions inside began later
            intro hmem
            have hle := le_of_concludes construction hmem (.inl rfl)
            have hcc : c = c₁ := by
              obtain rfl | rfl := concluded <;> cases hlast
              rfl
            rw [hnew, ← hc, ← hcc] at hle
            exact Nat.not_succ_le_self c hle
          · -- the constructions that end behind this one began behind it
            have hle := le_of_concludes next (hrest.subset List.mem_concat_self) (.inl rfl)
            have hlater := nextComponent_effect
              (effect_apply ((b.enroll s kind definition).2.play inner) last)
            intro hmem
            obtain hmem | hmem := List.mem_append.1 hmem
            · have hlt := lt_of_concludes construction hmem (.inl rfl)
              exact absurd (Nat.lt_of_lt_of_le hlt (Nat.le_trans hlater hle)) (Nat.lt_irrefl c)
            obtain heq | hmem := List.mem_cons.1 hmem
            · have hcc : c = c₁ := by
                obtain rfl | rfl := concluded <;> cases heq
                rfl
              have hgrown := Nat.le_trans (nextComponent_play (b.enroll s kind definition).2 inner)
                (Nat.le_trans hlater hle)
              rw [hnew, ← hc, ← hcc] at hgrown
              exact Nat.not_succ_le_self c hgrown
            · exact ihrest hrest hmem

/-- When the construction of a component ends and the component is not under construction any more, it was
disturbed before. -/
theorem disturbed_of_activate {acts : List (Act Code Store)} (h : Course views b acts)
    (coherent : Coherent b) {pre : List (Act Code Store)} (hact : pre ++ [.activate c] <+: acts)
    (component : (b.play pre).component? c = some k) (changed : k.phase ≠ .constructing) :
    ∃ mid a k₀, mid ++ [a] <+: pre ∧ (b.play mid).component? c = some k₀ ∧
      k₀.phase = .constructing ∧ Disturbs (b.play mid) c a := by
  induction h generalizing pre with
  | nil => simp at hact
  | @act b x rest plain next ih =>
      cases pre with
      | nil =>
          obtain ⟨rfl, -⟩ := List.cons_prefix_cons.1 hact
          cases plain
      | cons y pre =>
          obtain ⟨rfl, hrest⟩ := List.cons_prefix_cons.1 hact
          obtain ⟨mid, a, k₀, hmid, hk₀⟩ := ih (coherent.apply y) hrest component
          exact ⟨y :: mid, a, k₀, by simpa using hmid, hk₀⟩
  | @creation b s kind definition c₁ inner rest last _ enrolled construction concluded next ihinner
      ihrest =>
      have parts := enrolled_of_enroll enrolled
      have hcoherent : Coherent (b.enroll s kind definition).2 := coherent.enrolled parts
      cases pre with
      | nil =>
          obtain ⟨hnot, -⟩ := List.cons_prefix_cons.1 hact
          cases hnot
      | cons y pre =>
          obtain ⟨rfl, hbehind⟩ := List.cons_prefix_cons.1 hact
          obtain hin | ⟨rfl, hlast⟩ | ⟨pre', rfl, hrest⟩ := prefix_append_cons hbehind
          · obtain ⟨mid, a, k₀, hmid, hk₀⟩ := ihinner hcoherent hin component
            exact ⟨.enroll s kind definition :: mid, a, k₀, by simpa using hmid, hk₀⟩
          · -- the construction that ends is the one that began with this creation, and no other
            -- construction of that number ends in between
            have hcc : c = c₁ := by
              obtain rfl | rfl := concluded <;> cases hlast
              rfl
            have hc : c = b.nextComponent := hcc.trans (eq_nextComponent_of_enroll enrolled)
            have hnew : (b.enroll s kind definition).2.component? c = some (.new kind s) := by
              rw [parts.components, if_pos hc]
            have hfresh : ∀ {a}, a = .activate c ∨ a = .abandon c → a ∉ pre := by
              intro a ha hmem
              have hle := le_of_concludes construction hmem ha
              rw [parts.nextComponent, ← hc] at hle
              exact Nat.not_succ_le_self c hle
            obtain ⟨mid, a, k₀, hmid, hk₀⟩ := disturbed_of_not_constructing hcoherent hnew rfl
              ⟨hfresh (.inl rfl), hfresh (.inr rfl)⟩ component changed
            exact ⟨.enroll s kind definition :: mid, a, k₀, by simpa using hmid, hk₀⟩
          · have hcomponent : (Backend.play (last.apply ((b.enroll s kind definition).2.play inner))
                pre').component? c = some k := by
              simpa [Act.apply] using component
            obtain ⟨mid, a, k₀, hmid, hk₀⟩ :=
              ihrest ((hcoherent.play inner).apply last) hrest hcomponent
            refine ⟨.enroll s kind definition :: (inner ++ last :: mid), a, k₀, by simpa using hmid, ?_⟩
            simpa [Act.apply] using hk₀

end Backend

/-! ## whole runs -/

/-- While a component is under construction, it is not destroyed by the program, and its session is not
closed. -/
def Undisturbed (b : Backend Code Store) (acts : List (Act Code Store)) (c : ComponentId) : Prop :=
  ∀ pre k, (b.play pre).component? c = some k → k.phase = .constructing →
    ¬ pre ++ [.destroy c] <+: acts ∧ ¬ pre ++ [.close k.session] <+: acts

/-- A component that is not disturbed while it is constructed does not come back once it is destroyed. -/
theorem notRevived_of_undisturbed (calls : Callbacks Code (Prog Code Store))
    (leave : Store → Store → Store) (fuel : Nat) (p : Prog Code Store α) (store : Store)
    {c : ComponentId} (undisturbed : Undisturbed (.init store) (p.course calls leave fuel store) c) :
    NotRevived (.init store) (p.course calls leave fuel store) c := by
  intro pre k hact component phase
  obtain ⟨mid, a, k₀, hmid, hk₀, hphase, hdisturbs⟩ :=
    disturbed_of_activate (course_execute calls leave fuel p _) (coherent_init store) hact component
      (by simp [phase])
  have hpoint : mid ++ [a] <+: p.course calls leave fuel store :=
    hmid.trans ((List.prefix_append pre _).trans hact)
  obtain rfl | ⟨s, rfl, hmem⟩ := hdisturbs
  · exact (undisturbed mid k₀ hk₀ hphase).1 hpoint
  · obtain ⟨k₁, hk₁, rfl, -⟩ := (coherent_play store mid).member hmem
    rw [hk₀] at hk₁
    cases hk₁
    exact (undisturbed mid k₀ hk₀ hphase).2 hpoint

end ViewSync
