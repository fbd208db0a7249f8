import ViewSync.Proofs.Backend.Destroyed
import ViewSync.Proofs.Backend.Reports
import ViewSync.Proofs.Backend.Views

/-!
# ViewSync.Proofs.Backend.Failures

A frame that is no request to a component of the session fails alone (`failing_frame_isolated`): the session
goes on, its activations are as they were, and no component changes but the one in which it shows failures.
At most one component lives in which a session shows failures.

* `Backend.Reporting` — what each act keeps of the components in which a session has shown failures;
* `does_onMessage` — the course of a frame that fails.
-/

namespace ViewSync

variable {Code Store α : Type}

/-- The component that an act puts to use: it opens a batch on it or adds a listener. -/
def Act.engages? : Act Code Store → Option ComponentId
  | .openBatch c .. | .beginBatch c .. | .listen c .. => some c
  | _ => none

/-- Every view that acts register in a session under the reference of the view of failures has the digest of
that view. -/
def FailureView.Kept (acts : List (Act Code Store)) (s : SessionId) : Prop :=
  ∀ kind d d₀, .enroll s kind d ∈ acts → viewType.definition.1 = .ok d₀ → d.viewRef = d₀.viewRef →
    d.digest = d₀.digest

namespace Backend

/-- The program may destroy the component in which a session shows failures, but puts it to no use. -/
def LeftToFailures (b : Backend Code Store) (acts : List (Act Code Store)) (s : SessionId) : Prop :=
  ∀ pre a c, pre ++ [a] <+: acts → (b.play pre).shownIn? s = some c → a.engages? ≠ some c

variable {b b' : Backend Code Store} {a : Act Code Store} {s : SessionId} {c : ComponentId}
  {k : Component Code} {pre acts : List (Act Code Store)}

/-! ## views -/

/-- The views of a session are those that were registered in it, each under its reference. -/
theorem registered_play (store : Store) (acts : List (Act Code Store)) (s : SessionId) {r : ViewRef}
    {d : ViewDefinition}
    (hget : (((init store).play acts).session s).views.get? r = some d) :
    d.viewRef = r ∧ ∃ kind, .enroll s kind d ∈ acts := by
  induction acts using List.reverseRecOn with
  | nil => cases hget
  | append_singleton acts a ih =>
      have coherent := coherent_play store acts
      have hbehind : (((init store).play acts).session s).views.get? r = some d →
          d.viewRef = r ∧ ∃ kind, .enroll s kind d ∈ acts ++ [a] := by
        intro hold
        obtain ⟨href, kind, hmem⟩ := ih hold
        exact ⟨href, kind, List.mem_append_left _ hmem⟩
      rw [play_append, play_cons, play_nil] at hget
      by_cases henroll : ∃ kind definition, a = .enroll s kind definition
      · obtain ⟨kind, definition, rfl⟩ := henroll
        obtain ⟨e, hskipped⟩ | ⟨-, -, hcreated⟩ :=
          ((init store).play acts).enroll_cases s kind definition
        · rw [Act.apply, hskipped] at hget
          exact hbehind hget
        · have hparts : Enrolled ((init store).play acts) _ s kind definition :=
            Backend.enrolled_parts (b := (init store).play acts) (Prod.ext (by rw [hcreated]) rfl)
          rw [Act.apply, hparts.views, if_pos rfl] at hget
          split at hget
          · exact hbehind hget
          · rw [Table.get?_insert] at hget
            split at hget
            · next hr =>
              cases hget
              exact ⟨hr.symm, kind, List.mem_concat_self⟩
            · exact hbehind hget
      · rw [views_effect coherent (effect_apply _ a) fun kind d ha => henroll ⟨kind, d, ha⟩] at hget
        exact hbehind hget

/-- A session can always show a failure. -/
theorem enroll_diagnostic {store : Store} {d : ViewDefinition} (text : String)
    (kept : FailureView.Kept pre s) (compiled : FailureView.viewType.definition.1 = .ok d)
    (same : SameParts ((init store).play pre) b) (known : b.hasSession s = true) :
    ∃ c, (b.enroll s (.diagnostic text) d).1 = .ok c := by
  obtain ⟨session, hsession⟩ : ∃ session, b.sessions.get? s = some session := by
    rw [hasSession, Table.contains_eq_isSome] at known
    exact Option.isSome_iff_exists.1 known
  have hof : b.session s = session := by rw [Backend.session, hsession]; rfl
  have hfits : ((session.views.get? d.viewRef).any (·.digest ≠ d.digest)) = false := by
    rw [← hof, same.views]
    cases hget : (((init store).play pre).session s).views.get? d.viewRef with
    | none => rfl
    | some d' =>
        obtain ⟨href, kind, hmem⟩ := registered_play store pre s hget
        simp [kept kind d' d hmem compiled href]
  unfold enroll
  simp only [hsession, hfits]
  exact ⟨_, rfl⟩

/-! ## the component in which failures are shown -/

/-- A component without a batch writes into its fields at once, so it goes on to show failures. -/
theorem showing_of_write {changes : Fields} {options : UpdateOptions}
    {written : Component Code × Option (Delivery Code)} (showing : k.Showing s)
    (hwrite : k.write c changes options = .ok written) : written.1.Showing s := by
  rw [Component.write, if_neg (by simp [showing.active]), showing.unbatched] at hwrite
  dsimp only at hwrite
  split at hwrite
  · cases hwrite
  · cases hwrite
    exact { showing with unbatched := rfl }

/-- A component that is left to the failures of a session goes on to show them, unless it is destroyed. -/
theorem showing_apply (coherent : Coherent b) (hc : b.component? c = some k) (showing : k.Showing s)
    (unused : a.engages? ≠ some c) : ∃ k', (a.apply b).component? c = some k' ∧
      (k'.phase = .destroyed ∨ k'.Showing s) := by
  by_cases hon : a.on? = some c
  · have hset : ∀ (k' : Component Code) (d : Option (Delivery Code)), (k'.phase = .destroyed ∨ k'.Showing s) →
        ∃ k'', (b.tell c k' d).component? c = some k'' ∧ (k''.phase = .destroyed ∨ k''.Showing s) :=
      fun k' d h => ⟨k', (b.component?_tell c c k' d).trans (if_pos rfl), h⟩
    have hretired : ∃ k', (b.afterTry (b.destroy c)).component? c = some k' ∧
        (k'.phase = .destroyed ∨ k'.Showing s) := by
      refine ⟨k.retire, ?_, .inl rfl⟩
      rw [destroy, hc]
      simp only [showing.active, reduceCtorEq, if_false]
      exact (component?_retired c c k).trans (if_pos rfl)
    have hclosed : ∀ holder, k.closeBatch holder = (k, none) := by
      intro holder
      simp [Component.closeBatch, Component.batchOf?, showing.unbatched, Option.filter]
    cases a with
    | activate =>
        cases hon
        refine ⟨{ k with phase := .active }, ?_, .inr { showing with active := rfl }⟩
        rw [Act.apply, activate, component?_modifyComponent, if_pos rfl, hc]
        rfl
    | abandon => cases hon; exact hretired
    | destroy => cases hon; exact hretired
    | change _ changes options =>
        cases hon
        simp only [Act.apply, Backend.change, hc]
        cases hwrite : k.write c changes options with
        | error e => exact ⟨k, hc, .inr showing⟩
        | ok written => exact hset written.1 written.2 (.inr (showing_of_write showing hwrite))
    | openBatch => cases hon; exact absurd rfl unused
    | beginBatch => cases hon; exact absurd rfl unused
    | listen => cases hon; exact absurd rfl unused
    | commit _ holder =>
        cases hon
        simp only [Act.apply, Backend.commit, hc, hclosed]
        exact hset k none (.inr showing)
    | drop _ holder =>
        cases hon
        simp only [Act.apply, Backend.drop, hc, hclosed]
        exact hset k none (.inr showing)
    | unlisten _ id =>
        cases hon
        simp only [Act.apply, Backend.unlisten, hc]
        refine hset _ none (.inr { showing with unheard := ?_ })
        simp [Component.unlisten, showing.unheard]
    | _ => cases hon
  · by_cases hclose : a = .close k.session
    · subst hclose
      rw [Act.apply, component?_close, hc]
      split
      · exact ⟨k.retire, rfl, .inl rfl⟩
      · exact ⟨k, rfl, .inr showing⟩
    · exact ⟨k, component?_apply_of_spares coherent hc hon hclose, .inr showing⟩

/-! ### all components in which failures were shown -/

/-- The components in which a session has shown failures. While the session is open, only the one in which it
shows them now may live; and that one is put to no other use. -/
structure Reporting (b : Backend Code Store) (pre : List (Act Code Store)) (s : SessionId) : Prop where
  reported : ∀ {c}, .showFailuresIn s c ∈ pre →
    .activate c ∈ pre ∧ ∃ k, b.component? c = some k ∧ k.session = s
  latest : ∀ {c}, .showFailuresIn s c ∈ pre → (b.session s).isClosed = false →
    b.phase c ≠ .destroyed → (b.session s).diagnostic = some c
  shown : ∀ {c}, (b.session s).diagnostic = some c → .showFailuresIn s c ∈ pre ∧
    ∃ k, b.component? c = some k ∧ (k.phase = .destroyed ∨ k.Showing s)

theorem reporting_init (store : Store) (s : SessionId) :
    Reporting (init store : Backend Code Store) [] s where
  reported h := by cases h
  latest h := by cases h
  shown h := by cases h

/-- Only two acts change where a session shows failures. -/
theorem diagnostic_apply (coherent : Coherent b) (ha : a ≠ .close s)
    (hshow : ∀ c, a ≠ .showFailuresIn s c) :
    ((a.apply b).session s).diagnostic = (b.session s).diagnostic := by
  cases hstanding : a.isStanding with
  | true => exact session_apply_of Session.standing_diagnostic hstanding s
  | false =>
      cases a with
      | openSession config channel =>
          rw [Act.apply, session_openSession]
          split
          · next hs =>
            -- a session that is opened shows no failures, before or behind that
            have hnot : b.hasSession s = false := by
              cases hold : b.hasSession s with
              | false => rfl
              | true => exact absurd hs (Nat.ne_of_lt (coherent.session_lt hold))
            rw [session_of_not_hasSession hnot]
            rfl
          · rfl
      | close s' =>
          have hne : s ≠ s' := fun heq => ha (heq ▸ rfl)
          rw [Act.apply, session_close, if_neg fun hs => hne hs.1]
      | showFailuresIn s' c =>
          have hne : s ≠ s' := fun heq => hshow c (heq ▸ rfl)
          rw [Act.apply, showFailuresIn, session_modifySession, if_neg fun hs => hne hs.1]
      | _ => cases hstanding

section

variable (h : Reporting b pre s) (coherent : Coherent b)

include h coherent

theorem Reporting.known (hmem : .showFailuresIn s c ∈ pre) : b.hasSession s = true := by
  obtain ⟨-, k, hk, rfl⟩ := h.reported hmem
  exact coherent.home hk

/-- A session that is open behind an act was open in front of it. -/
theorem Reporting.isOpen (hmem : .showFailuresIn s c ∈ pre) (hopen : ((a.apply b).session s).isClosed = false) :
    (b.session s).isClosed = false := by
  by_contra hclosed
  have hstill := (isClosed_effect coherent (b.effect_apply a) (h.known coherent hmem) (by simpa using hclosed)).2
  rw [hopen] at hstill
  cases hstill

/-- A component that lives behind an act lived in front of it, as it is not activated twice. -/
theorem Reporting.live (once : ∀ c, a = .activate c → .activate c ∉ pre) (hmem : .showFailuresIn s c ∈ pre)
    (hlive : (a.apply b).phase c ≠ .destroyed) : b.phase c ≠ .destroyed := by
  intro hphase
  obtain ⟨hact, k, hk, -⟩ := h.reported hmem
  have hdestroyed : k.phase = .destroyed := by simpa [phase, hk] using hphase
  obtain ⟨k', hk', hfinal, -⟩ := destroyed_effect coherent (b.effect_apply a) hk hdestroyed
    fun heq => absurd hact (once c heq)
  exact hlive (by simp [phase, hk', hfinal])

theorem Reporting.reported_apply (a : Act Code Store) (hmem : .showFailuresIn s c ∈ pre) :
    .activate c ∈ pre ++ [a] ∧ ∃ k, (a.apply b).component? c = some k ∧ k.session = s := by
  obtain ⟨hact, k, hk, hsession⟩ := h.reported hmem
  obtain ⟨k', hk', -, hsession'⟩ := component?_effect coherent (b.effect_apply a) hk
  exact ⟨List.mem_append_left _ hact, k', hk', hsession'.trans hsession⟩

/-- Failures are shown in a new component only when the one that showed them is gone. -/
theorem Reporting.showFailures (presented : b.Presented pre s c) :
    Reporting ((Act.showFailuresIn s c).apply b) (pre ++ [.showFailuresIn s c]) s := by
  obtain ⟨hact, ⟨k, hk, hshowing⟩, halone⟩ := presented
  have hthere : b.hasSession s = true := hshowing.session ▸ coherent.home hk
  have hdiagnostic : (((Act.showFailuresIn s c).apply b).session s).diagnostic = some c := by
    rw [Act.apply, showFailuresIn, session_modifySession, if_pos ⟨rfl, hthere⟩]
  have hlive : ∀ {c'}, .showFailuresIn s c' ∈ pre → ((Act.showFailuresIn s c).apply b).phase c' ≠ .destroyed →
      b.phase c' ≠ .destroyed := h.live coherent (by simp)
  refine ⟨fun {c'} hmem => ?_, fun {c'} hmem hopen hphase => ?_, fun {c'} hc' => ?_⟩
  · obtain hmem | hmem := List.mem_append.1 hmem
    · exact h.reported_apply coherent _ hmem
    · cases List.mem_singleton.1 hmem
      exact ⟨List.mem_append_left _ hact, k, hk, hshowing.session⟩
  · obtain hmem | hmem := List.mem_append.1 hmem
    · obtain rfl | hgone := halone c' (h.latest hmem (h.isOpen coherent hmem hopen) (hlive hmem hphase))
      · exact hdiagnostic
      · exact absurd hgone (hlive hmem hphase)
    · cases List.mem_singleton.1 hmem
      exact hdiagnostic
  · rw [hdiagnostic] at hc'
    cases hc'
    exact ⟨List.mem_concat_self, k, hk, .inr hshowing⟩

/-- No other act puts a component in the place of the one that shows failures. -/
theorem Reporting.apply_other (hshow : ∀ c, a ≠ .showFailuresIn s c)
    (once : ∀ c, a = .activate c → .activate c ∉ pre)
    (unused : ∀ c, b.shownIn? s = some c → a.engages? ≠ some c) : Reporting (a.apply b) (pre ++ [a]) s := by
  have hmember : ∀ {c}, .showFailuresIn s c ∈ pre ++ [a] → .showFailuresIn s c ∈ pre := by
    intro c hmem
    obtain hmem | hmem := List.mem_append.1 hmem
    · exact hmem
    · exact absurd (List.mem_singleton.1 hmem).symm (hshow c)
  refine ⟨fun hmem => h.reported_apply coherent a (hmember hmem), fun {c} hmem hopen hphase => ?_,
    fun {c} hc => ?_⟩
  · have hne : a ≠ .close s := by
      rintro rfl
      rw [Act.apply, b.isClosed_close (.inl rfl)] at hopen
      cases hopen
    rw [diagnostic_apply coherent hne hshow]
    exact h.latest (hmember hmem) (h.isOpen coherent (hmember hmem) hopen)
      (h.live coherent once (hmember hmem) hphase)
  · have hne : a ≠ .close s := by
      rintro rfl
      rw [Act.apply, session_close] at hc
      split at hc
      · cases hc
      · next hnot =>
        rw [session_of_not_hasSession (by simpa using hnot)] at hc
        cases hc
    rw [diagnostic_apply coherent hne hshow] at hc
    obtain ⟨hmem, k, hk, hdestroyed | hshowing⟩ := h.shown hc
    · obtain ⟨k', hk', hfinal, -⟩ := destroyed_effect coherent (b.effect_apply a) hk hdestroyed
        fun heq => absurd (h.reported hmem).1 (once c heq)
      exact ⟨List.mem_append_left _ hmem, k', hk', .inl hfinal⟩
    · have hshown : b.shownIn? s = some c := by
        simp [shownIn?, hc, Option.filter, phase, hk, hshowing.active]
      obtain ⟨k', hk', hgoes⟩ := showing_apply coherent hk hshowing (unused c hshown)
      exact ⟨List.mem_append_left _ hmem, k', hk', hgoes⟩

theorem Reporting.apply (once : ∀ c, a = .activate c → .activate c ∉ pre)
    (presented : ∀ c, a = .showFailuresIn s c → b.Presented pre s c)
    (unused : ∀ c, b.shownIn? s = some c → a.engages? ≠ some c) : Reporting (a.apply b) (pre ++ [a]) s := by
  by_cases hshow : ∃ c, a = .showFailuresIn s c
  · obtain ⟨c, rfl⟩ := hshow
    exact h.showFailures coherent (presented c rfl)
  · exact h.apply_other coherent (fun c heq => hshow ⟨c, heq⟩) once unused

end

/-- When a failure of an open session has been shown, one component lives that was created for that. -/
theorem Reporting.alone (h : Reporting b pre s) (hopen : (b.session s).isClosed = false)
    (place : (b.shownIn? s).getD b.nextComponent = c) (live : b'.phase c ≠ .destroyed)
    (others : ∀ c', c' ≠ c → b'.component? c' = b.component? c')
    (begun : ∀ c', .showFailuresIn s c' ∈ acts ↔ c' = c ∧ b.shownIn? s = none) (c' : ComponentId) :
    .showFailuresIn s c' ∈ pre ++ acts ∧ b'.phase c' ≠ .destroyed ↔ c' = c := by
  rw [List.mem_append, begun]
  constructor
  · intro hreported
    obtain ⟨hmem | hnew, hlive⟩ := hreported
    · -- one that showed failures before and lives showed the last one
      by_contra hne
      have hlive' : b.phase c' ≠ .destroyed := by rwa [phase, others c' hne] at hlive
      have hshown : b.shownIn? s = some c' := by
        simp [shownIn?, h.latest hmem hopen hlive', Option.filter, hlive']
      rw [hshown] at place
      exact hne place
    · exact hnew.1
  · rintro rfl
    refine ⟨?_, live⟩
    cases hshown : b.shownIn? s with
    | none => exact .inr ⟨rfl, rfl⟩
    | some c =>
        rw [hshown] at place
        cases place
        exact .inl (h.shown (Option.filter_eq_some_iff.1 hshown).1).1

/-- Every act of a program keeps the order of the components in which a session has shown failures. -/
theorem reporting_play (calls : Callbacks Code (Prog Code Store)) (leave : Store → Store → Store)
    (fuel : Nat) (p : Prog Code Store α) (store : Store) (point : pre <+: p.course calls leave fuel store)
    (left : LeftToFailures (init store) pre s) : Reporting ((init store).play pre) pre s := by
  refine play_induction (I := fun pre b => Reporting b pre s) (reporting_init store s) ?_
    (List.prefix_refl pre)
  intro mid a hact h
  have hcourse := hact.trans point
  refine h.apply (coherent_play store mid) (fun c heq => ?_) (fun c heq => ?_) fun c => left mid a c hact
  · subst heq
    exact activate_once (course_execute calls leave fuel p _) hcourse
  · subst heq
    exact presents_execute calls leave fuel p _ (coherent_init store) mid s c hcourse

end Backend

/-! ## the failure that is reported -/

/-- Between two states a session has shown a text in a component: in the one that showed the last failure, if
it lives, else in a new one. Nothing else of components or activations has changed. -/
structure Backend.ShowsIn (b b' : Backend Code Store) (s : SessionId) (text : String)
    (shown : List (Act Code Store)) (c : ComponentId) : Prop where
  settled : Backend.Settled b b'
  place : (b.shownIn? s).getD b.nextComponent = c
  component : ∃ k, b'.component? c = some k ∧ k.Showing s ∧
    k.fields.get? "text" = some (.str (b.cut s text))
  others : ∀ c', c' ≠ c → b'.component? c' = b.component? c'
  diagnostic : (b'.session s).diagnostic = some c
  begun : ∀ c', .showFailuresIn s c' ∈ shown ↔ c' = c ∧ b.shownIn? s = none

namespace Callbacks

variable (calls : Callbacks Code (Run Code Store)) {b : Backend Code Store} {s : SessionId}

theorem settled_presenting (coherent : Backend.Coherent b) (h : Backend.Enterable b s) (text : String)
    (d : ViewDefinition) : Backend.Settled b (b.play (presenting b s text d)) := by
  have hidle : ∀ a ∈ .enroll s (.diagnostic text) d :: bringing b.nextComponent (b.cut s text),
      (a : Act Code Store).activates = false := by simp [bringing, Act.activates]
  have hsettled := Backend.settled_play (coherent.apply (.enter s false)) hidle
  have hleft := Backend.Settled.leave h hsettled
  simpa [presenting, Act.apply] using hleft

/-- The report of a failure shows its text, when the session shows failures at all. -/
theorem report_shows (coherent : Backend.Coherent b) (h : Backend.Enterable b s) (active : s ∈ b.stack)
    (on : (b.session s).config.renderDiagnostics = true ∧ ¬ (b.session s).isClosed = true)
    (error : SessionError) {d : ViewDefinition} (compiled : FailureView.viewType.definition.1 = .ok d)
    (enrolls : ∃ c, ((b.enter s false).2.enroll s (.diagnostic error.message) d).1 = .ok c)
    (showing : ∀ c, b.shownIn? s = some c → ∃ k, b.component? c = some k ∧ k.Showing s) :
    ∃ shown c, (calls.report s error).Does b shown () ∧
      b.ShowsIn (b.play shown) s error.message shown c := by
  cases hshown : b.shownIn? s with
  | some c =>
      obtain ⟨k, hk, hshowing⟩ := showing c hshown
      obtain ⟨hdoes, hcomponent⟩ := does_report_again calls on error hshown hk hshowing active
      have hdiagnostic : (b.session s).diagnostic = some c := (Option.filter_eq_some_iff.1 hshown).1
      refine ⟨_, c, hdoes, ?_⟩
      rw [Backend.play_cons, Backend.play_nil]
      exact {
        settled := (Backend.sameActivity_apply coherent rfl).settled
        place := by rw [hshown, Option.getD_some]
        component := ⟨_, hcomponent, { hshowing with }, text_applyChanges _ _⟩
        others := fun c' hne => Backend.component?_apply_of_other rfl hne
        diagnostic := (Backend.session_apply_of Session.standing_diagnostic rfl s).trans hdiagnostic
        begun := fun c' => by simp [hshown] }
  | none =>
      obtain ⟨c, henroll⟩ := enrolls
      have hview : (calls.viewOf (.diagnostic error.message)).definition.1 = .ok d := compiled
      obtain ⟨hnumber, hcreate, hcomponent, hothers⟩ := does_create calls hview henroll
      have hdoes := does_report_new calls on error hshown hcreate
      have hsettled := settled_presenting coherent h error.message d
      have hcoherent := coherent.play (presenting b s error.message d)
      refine ⟨_, c, hdoes, ?_⟩
      rw [Backend.play_append, Backend.play_cons, Backend.play_nil]
      generalize b.play (presenting b s error.message d) = b₁ at *
      have hknown : b₁.hasSession s = true := hcoherent.home hcomponent
      have hsame : ∀ c', ((Act.showFailuresIn s c).apply b₁).component? c' = b₁.component? c' :=
        fun _ => rfl
      exact {
        settled := hsettled.trans (Backend.sameActivity_apply hcoherent rfl).settled
        place := by rw [hshown, hnumber, Option.getD_none]
        component := ⟨_, (hsame c).trans hcomponent, ⟨⟨_, rfl⟩, rfl, rfl, rfl, rfl⟩, text_applyChanges _ _⟩
        others := fun c' hne => (hsame c').trans (hothers c' hne)
        diagnostic := by
          rw [Act.apply, Backend.showFailuresIn, Backend.session_modifySession, if_pos ⟨rfl, hknown⟩]
        begun := fun c' => by simp [hshown, presenting, bringing] }

end Callbacks

/-! ## frames that fail -/

/-- The error of a frame that is no request to a component in the arena. -/
def refusalOf : Except Json.Error Message → SessionError
  | .error e => .codec e
  | .ok (.request c _) => .unknownComponent c
  | .ok m => .unexpectedMessage m.kind

/-- The state in which the failure of a frame is reported: the session has been activated for the frame, and
once more while the frame was read. -/
def Backend.received (b : Backend Code Store) (s : SessionId) : Backend Code Store :=
  (b.enter s false).2.play [.enter s false, .leave (b.enter s false).2.nextGuard]

namespace Backend

variable {b : Backend Code Store} {s : SessionId} {c : ComponentId} {pre acts shown : List (Act Code Store)}

theorem still_received (b : Backend Code Store) (s : SessionId) : b.Still (b.received s) :=
  (((Still.refl b).enter s false).enter s false).leaveNumber _

/-- What is said of a session without its activations and wrappers is the same when a failure is reported. -/
theorem session_received {γ : Type} {g : Session → γ} (h : Session.Inactive g) (b : Backend Code Store)
    (s s' : SessionId) : g ((b.received s).session s') = g (b.session s') :=
  (session_leaveNumber_of h _ s').trans ((session_enter_of h s false s').trans (session_enter_of h s false s'))

/-- Activations that are settled are those from before. -/
theorem Settled.activity {b b' : Backend Code Store} (h : Settled b b') :
    b'.current? = b.current? ∧ b'.stack = b.stack ∧ b'.guards = b.guards ∧ ∀ s,
      (b'.session s).depth = (b.session s).depth ∧ (b'.session s).engaged = (b.session s).engaged := by
  refine ⟨?_, h.stack, h.guards, fun s => ⟨h.depth s, h.engaged s⟩⟩
  rw [current?, h.stack, current?]

theorem settled_received (h : Enterable b s) : Settled (b.enter s false).2 (b.received s) :=
  Settled.leave (h.enter false) (.refl _)

theorem enterable_received (h : Enterable b s) : Enterable (b.received s) s :=
  (h.enter false).settled (settled_received h) (((still_received b s).hasSession s).trans h.known)

theorem mem_stack_received (h : Enterable b s) : s ∈ (b.received s).stack := by
  rw [(settled_received h).stack, (b.rewired_enter s false).stack]
  simp [begun]

theorem cut_received (b : Backend Code Store) (s : SessionId) (text : String) :
    (b.received s).cut s text = b.cut s text := by
  simp only [cut, session_received Session.standing_config.inactive b s s]

theorem shownIn?_received (b : Backend Code Store) (s : SessionId) :
    (b.received s).shownIn? s = b.shownIn? s := by
  have hphase : ∀ c, (b.received s).phase c = b.phase c := by
    intro c
    rw [phase, phase, (still_received b s).components]
  have hdiagnostic : ((b.received s).session s).diagnostic = (b.session s).diagnostic :=
    session_received Session.standing_diagnostic.inactive b s s
  simp only [shownIn?, hphase, hdiagnostic]

/-- A frame changes nothing of whether its session shows failures. -/
theorem rendering_received (b : Backend Code Store) (s : SessionId) :
    (((b.received s).session s).config.renderDiagnostics = true ∧ ¬ ((b.received s).session s).isClosed = true) ↔
      (b.session s).config.renderDiagnostics = true ∧ (b.session s).isClosed = false := by
  have hconfig : ((b.received s).session s).config = (b.session s).config :=
    session_received Session.standing_config.inactive b s s
  have hclosed : ((b.received s).session s).isClosed = (b.session s).isClosed :=
    session_received (g := (·.isClosed)) (fun _ _ _ _ => rfl) b s s
  rw [hconfig, hclosed, Bool.not_eq_true]

theorem showing_received (h : Reporting b pre s) (hc : (b.received s).shownIn? s = some c) :
    ∃ k, (b.received s).component? c = some k ∧ k.Showing s := by
  rw [shownIn?_received] at hc
  obtain ⟨hdiagnostic, hlive⟩ := Option.filter_eq_some_iff.1 hc
  obtain ⟨-, k, hk, hdestroyed | hshowing⟩ := h.shown hdiagnostic
  · simp [phase, hk, hdestroyed] at hlive
  · exact ⟨k, ((still_received b s).components c).trans hk, hshowing⟩

/-- A frame that fails leaves the activations of all sessions as they were, whatever its report does to
components. -/
theorem settled_onMessage (h : Enterable b s) (settled : Settled (b.received s) ((b.received s).play shown)) :
    Settled b (((b.received s).play shown).leaveNumber b.nextGuard) :=
  Settled.leave h ((settled_received h).trans settled)

/-- What has been shown while a frame was read stands behind the frame. -/
theorem ShowsIn.of_received {text : String} (henterable : Enterable b s)
    (h : (b.received s).ShowsIn ((b.received s).play shown) s text shown c)
    (reports : ∀ c', .showFailuresIn s c' ∈ acts ↔ .showFailuresIn s c' ∈ shown) :
    b.ShowsIn (((b.received s).play shown).leaveNumber b.nextGuard) s text acts c := by
  have hstill := still_received b s
  have hcomponent := ((Still.refl ((b.received s).play shown)).leaveNumber b.nextGuard).components
  obtain ⟨k, hk, hshowing, htext⟩ := h.component
  rw [cut_received] at htext
  exact {
    settled := settled_onMessage henterable h.settled
    place := by
      rw [← shownIn?_received b s, ← hstill.nextComponent]
      exact h.place
    component := ⟨k, (hcomponent c).trans hk, hshowing, htext⟩
    others := fun c' hne => (hcomponent c').trans ((h.others c' hne).trans (hstill.components c'))
    diagnostic := (session_leaveNumber_of Session.standing_diagnostic.inactive _ s).trans h.diagnostic
    begun := fun c' => by rw [reports, h.begun, shownIn?_received] }

end Backend

namespace Callbacks

variable (calls : Callbacks Code (Run Code Store)) {b : Backend Code Store} {s : SessionId} {text : String}
  (unaddressed : ∀ c payload, Message.decode text = .ok (.request c payload) →
    c ∉ (b.session s).arena)

include unaddressed

/-- A frame that is no request to a component in the arena is refused. -/
theorem does_dispatch : (calls.dispatch s text).Does b [.enter s false, .leave b.nextGuard]
    (.error (refusalOf (Message.decode text))) := by
  rw [← List.nil_append [Act.leave b.nextGuard]]
  refine Run.Does.inside ?_
  cases hdecode : Message.decode text with
  | error e => exact Run.does_pure _ _
  | ok m =>
      cases m with
      | request c payload =>
          have harena : ((b.enter s false).2.session s).arena = (b.session s).arena :=
            Backend.session_enter_of (g := (·.arena)) (fun _ _ _ _ => rfl) s false s
          refine Run.Does.read ?_
          rw [harena, if_neg (by simpa using unaddressed c payload hdecode)]
          exact Run.does_pure _ _
      | _ => exact Run.does_pure _ _

/-- The course of a frame that fails: the failure is reported while the session is active. -/
theorem does_onMessage {shown : List (Act Code Store)}
    (reports : (calls.report s (refusalOf (Message.decode text))).Does (b.received s) shown ()) :
    (calls.onMessage s text).Does b
      (.enter s false :: (([.enter s false, .leave (b.enter s false).2.nextGuard] ++ shown) ++
        [.leave b.nextGuard])) () := by
  have harena : ((b.enter s false).2.session s).arena = (b.session s).arena :=
    Backend.session_enter_of (g := (·.arena)) (fun _ _ _ _ => rfl) s false s
  have hrefused := does_dispatch calls (b := (b.enter s false).2) fun c payload hdecode =>
    harena ▸ unaddressed c payload hdecode
  have hcaught : (calls.dispatch s text).catchPanic.Does (b.enter s false).2
      ([.enter s false, .leave (b.enter s false).2.nextGuard] ++ [])
      (.ok (.error (refusalOf (Message.decode text)))) :=
    Run.Does.andThen hrefused (Run.does_pure _ _)
  rw [List.append_nil] at hcaught
  exact Run.Does.inside (hcaught.bind reports)

theorem last_onMessage {shown : List (Act Code Store)}
    (reports : (calls.report s (refusalOf (Message.decode text))).Does (b.received s) shown ()) :
    (calls.onMessage s text).last b = ((b.received s).play shown).leaveNumber b.nextGuard := by
  rw [(does_onMessage calls unaddressed reports).last_eq]
  simp only [Backend.play_cons, Backend.play_append, Backend.play_nil]
  rfl

/-- The failure of a frame is shown, when the session shows failures at all. -/
theorem onMessage_shows {pre : List (Act Code Store)} (coherent : Backend.Coherent b)
    (henterable : Backend.Enterable b s) (reporting : Backend.Reporting b pre s)
    (on : (b.session s).config.renderDiagnostics = true ∧ (b.session s).isClosed = false)
    {d : ViewDefinition} (compiled : FailureView.viewType.definition.1 = .ok d)
    (enrolls : ∃ c, (((b.received s).enter s false).2.enroll s
      (.diagnostic (refusalOf (Message.decode text)).message) d).1 = .ok c) :
    (calls.onMessage s text).ending b = .value () ∧
      ∃ c, b.ShowsIn ((calls.onMessage s text).last b) s (refusalOf (Message.decode text)).message
        ((calls.onMessage s text).acts b) c := by
  have hreceived : Backend.Coherent (b.received s) :=
    coherent.of_sameParts (Backend.still_received b s).toSameParts
  obtain ⟨shown, c, hreport, hshows⟩ := report_shows calls hreceived
    (Backend.enterable_received henterable) (Backend.mem_stack_received henterable)
    ((Backend.rendering_received b s).2 on) (refusalOf (Message.decode text)) compiled enrolls
    fun c => Backend.showing_received reporting
  have hdoes := does_onMessage calls unaddressed hreport
  have hbegun : ∀ c', .showFailuresIn s c' ∈ (calls.onMessage s text).acts b ↔ .showFailuresIn s c' ∈ shown := by
    intro c'
    rw [hdoes.acts_eq]
    simp
  refine ⟨hdoes.ending_eq, c, ?_⟩
  rw [last_onMessage calls unaddressed hreport]
  exact hshows.of_received henterable hbegun

/-- A frame that fails leaves no trace, when the session shows no failures. -/
theorem onMessage_silent (henterable : Backend.Enterable b s)
    (off : ¬ ((b.session s).config.renderDiagnostics = true ∧ (b.session s).isClosed = false)) :
    (calls.onMessage s text).ending b = .value () ∧
      Backend.Settled b ((calls.onMessage s text).last b) ∧ b.Still ((calls.onMessage s text).last b) := by
  have hreport := does_report_off calls (mt (Backend.rendering_received b s).1 off)
    (refusalOf (Message.decode text))
  rw [last_onMessage calls unaddressed hreport]
  exact ⟨(does_onMessage calls unaddressed hreport).ending_eq,
    Backend.settled_onMessage henterable (.refl (b.received s)), (Backend.still_received b s).leaveNumber _⟩

end Callbacks

/-- A frame that does not decode to a request to a component in the arena fails alone, at every point of every
run in which the program puts the component in which the session shows failures to no use, and registers no
other view under its reference. The session goes on; the current session, the activations and the wrappers
that are engaged are as before; no component changes but the one in which the session shows failures. If the
session is open and shows failures, exactly one component that was created to show failures lives: the one
that showed the last failure if that was not destroyed, else a new one. Its text is as much of the text of the
error as the session says. If the session is closed or told to show no failures, nothing is created or sent. -/
theorem failing_frame_isolated (calls : Callbacks Code (Prog Code Store)) (leave : Store → Store → Store)
    (fuel : Nat) (p : Prog Code Store α) (store : Store) {pre : List (Act Code Store)}
    (point : pre <+: p.course calls leave fuel store) {s : SessionId}
    (opening : Backend.EnteredAfterOpening (.init store) pre s)
    (left : Backend.LeftToFailures (.init store) pre s) (kept : FailureView.Kept pre s)
    (known : ((Backend.init store).play pre).hasSession s = true)
    (answering : Callbacks Code (Run Code Store)) {text : String}
    (unaddressed : ∀ c payload, Message.decode text = .ok (.request c payload) →
      c ∉ (((Backend.init store).play pre).session s).arena) :
    let b := (Backend.init store).play pre
    let x := answering.onMessage s text
    let b' := x.last b
    x.ending b = .value () ∧
    (b'.current? = b.current? ∧ b'.stack = b.stack ∧ b'.guards = b.guards ∧ ∀ s',
      (b'.session s').depth = (b.session s').depth ∧ (b'.session s').engaged = (b.session s').engaged) ∧
    (∀ c, (b'.session s).diagnostic ≠ some c → b'.component? c = b.component? c) ∧
    ((b.session s).config.renderDiagnostics = true ∧ (b.session s).isClosed = false →
      ∃ c k, (b'.session s).diagnostic = some c ∧ (b.shownIn? s).getD b.nextComponent = c ∧
        (∀ c', .showFailuresIn s c' ∈ pre ++ x.acts b ∧ b'.phase c' ≠ .destroyed ↔ c' = c) ∧
        b'.component? c = some k ∧ k.session = s ∧ k.phase = .active ∧
        k.fields.get? "text" = some (.str (String.ofList
          ((refusalOf (Message.decode text)).message.toList.take
            (b.session s).config.diagnosticLimit)))) ∧
    (¬ ((b.session s).config.renderDiagnostics = true ∧ (b.session s).isClosed = false) →
      (∀ c, b'.component? c = b.component? c) ∧ b'.nextComponent = b.nextComponent ∧
        ∀ s', b'.sentTo s' = b.sentTo s') := by
  intro b x b'
  obtain ⟨numbered, balanced⟩ := Backend.balanced_play opening (List.prefix_refl pre)
  have coherent : Backend.Coherent b := Backend.coherent_play store pre
  have henterable : Backend.Enterable b s := ⟨known, numbered, balanced.idle⟩
  have hreporting : Backend.Reporting b pre s :=
    Backend.reporting_play calls leave fuel p store point left
  by_cases on : (b.session s).config.renderDiagnostics = true ∧ (b.session s).isClosed = false
  · have hentered := (Backend.still_received b s).enter s false
    obtain ⟨d, hd, -⟩ := FailureView.definition_viewType
    have henrolls := Backend.enroll_diagnostic (refusalOf (Message.decode text)).message kept hd
      hentered.toSameParts ((hentered.hasSession s).trans known)
    obtain ⟨hending, c, hshows⟩ :=
      Callbacks.onMessage_shows answering unaddressed coherent henterable hreporting on hd henrolls
    obtain ⟨k, hk, hshowing, htext⟩ := hshows.component
    have hlive : b'.phase c ≠ .destroyed := by
      rw [Backend.phase, hk]
      simp [hshowing.active]
    refine ⟨hending, hshows.settled.activity, fun c' hc' => ?_, fun _ => ?_, fun off => absurd on off⟩
    · exact hshows.others c' fun heq => hc' (heq ▸ hshows.diagnostic)
    · exact ⟨c, k, hshows.diagnostic, hshows.place,
        hreporting.alone on.2 hshows.place hlive hshows.others hshows.begun,
        hk, hshowing.session, hshowing.active, htext⟩
  · obtain ⟨hending, hsettled, hstill⟩ := Callbacks.onMessage_silent answering unaddressed henterable on
    exact ⟨hending, hsettled.activity, fun c _ => hstill.components c, fun h => absurd h on,
      fun _ => ⟨hstill.components, hstill.nextComponent, hstill.sent⟩⟩

/-- A program that opens a session. -/
def Sample.opening : Prog Sample Unit SessionId := Prog.request (.openSession {} {})

/-- The callbacks of the sample components, carried out. -/
def Sample.answering : Callbacks Sample (Run Sample Unit) :=
  (Sample.calls fun _ => Sample.view ⟨"app", "", "View"⟩ "").map fun call =>
    call.execute (Sample.calls fun _ => Sample.view ⟨"app", "", "View"⟩ "") (fun _ after => after) 1

/-- The state behind the program. -/
def Sample.opened : Backend Sample Unit := (Backend.init ()).play (Sample.course Sample.opening)

/-- The state behind a first frame. -/
def Sample.greeted : Backend Sample Unit := (Sample.answering.onMessage 1 "hello").last Sample.opened

/-- The first frame of a session is no message: the session shows that in its first component. -/
theorem opening_isolated :
    Sample.greeted.stack = [] ∧ Sample.greeted.phase 1 = .active ∧
      (Sample.greeted.session 1).diagnostic = some 1 := by
  have honly : ∀ {pre : List (Act Sample Unit)} {a}, pre ++ [a] <+: Sample.course Sample.opening →
      a = .openSession {} {} := by
    intro pre a hpre
    exact List.mem_singleton.1 (hpre.subset List.mem_concat_self)
  have hopening : Backend.EnteredAfterOpening (.init ()) (Sample.course Sample.opening) 1 :=
    fun pre held hpre => nomatch honly hpre
  have hleft : Backend.LeftToFailures (.init ()) (Sample.course Sample.opening) 1 :=
    fun pre a c hpre _ => by rw [honly hpre]; exact nofun
  have hkept : FailureView.Kept (Sample.course Sample.opening) 1 :=
    fun _ _ _ hmem => nomatch List.mem_singleton.1 hmem
  have unaddressed : ∀ text c payload, Message.decode text = .ok (.request c payload) →
      c ∉ (Sample.opened.session 1).arena := fun _ _ _ _ => List.not_mem_nil
  obtain ⟨-, ⟨-, hstack, -⟩, -, hshown, -⟩ := failing_frame_isolated _ _ _ Sample.opening ()
    (List.prefix_refl (Sample.course Sample.opening)) hopening hleft hkept (by decide) Sample.answering
    (unaddressed "hello")
  obtain ⟨c, k, hdiagnostic, hplace, -, hk, -, hactive, -⟩ := hshown (by decide)
  have hidle : Sample.opened.stack = [] := rfl
  have hfirst : (Sample.opened.shownIn? 1).getD Sample.opened.nextComponent = 1 := by decide
  obtain rfl : 1 = c := hfirst.symm.trans hplace
  have hcomponent : Sample.greeted.component? 1 = some k := hk
  refine ⟨hstack.trans hidle, ?_, hdiagnostic⟩
  rw [Backend.phase, hcomponent]
  exact hactive

end ViewSync
