import ViewSync.Proofs.Backend.Refusals
import ViewSync.Proofs.Backend.Reports
import ViewSync.Proofs.Backend.Scopes

/-!
# ViewSync.Proofs.Backend.Creation

A component that cannot be created leaves no trace but what was told of its lifetime, if the code that sets its
first values touches only that component (`Act.touchesOnly`).

* `Backend.quiet_or_retired` — such an act tells nothing, or ends the component;
* `Backend.Confined` — what has come of the creation so far, kept by one act (`Confined.apply`) and by all acts of
  the code (`confined_play`);
* `failed_creation_leaves_no_trace` — the three ways in which a creation fails.

A channel that refuses a frame closes the session, and nothing is told from there on
(`refused_frame_cuts_lifetime`).
-/

namespace ViewSync

variable {Code Store α : Type}

/-! ## acts that touch only one component -/

/-- Whether an act touches only one component: it is carried out on that component, or it is no operation on
components, sends no message, and neither begins nor ends an activation. -/
def Act.touchesOnly (c : ComponentId) : Act Code Store → Bool
  | .send .. => false
  | a => a.on? = some c || !a.isOfComponents && !a.activates

theorem Act.touchesOnly_cases {c : ComponentId} {a : Act Code Store} (h : a.touchesOnly c = true) :
    a.on? = some c ∨ a.isOfComponents = false ∧ a.activates = false ∧ ∀ s m, a ≠ .send s m := by
  unfold touchesOnly at h
  split at h
  · cases h
  · next hunsent =>
    rw [Bool.or_eq_true, Bool.and_eq_true, Bool.not_eq_true', Bool.not_eq_true', decide_eq_true_eq] at h
    exact h.imp_right fun ⟨haside, hidle⟩ => ⟨haside, hidle, hunsent⟩

/-- An act on a component neither begins nor ends an activation. -/
theorem Act.activates_of_touchesOnly {c : ComponentId} {a : Act Code Store} (h : a.touchesOnly c = true) :
    a.activates = false := by
  obtain hon | ⟨-, hidle, -⟩ := touchesOnly_cases h
  · cases a with
    | enter | exit | leave | addWrapper | removeWrapper => cases hon
    | _ => rfl
  · exact hidle

/-- What is told of a touch is told of the component on which the act is carried out. -/
theorem Touch.eq_of_told {c c₁ : ComponentId} {k k' : Component Code} {a : Act Code Store}
    {d : Option (Delivery Code)} (h : Touch c₁ k a k' d) (on : a.on? = some c) (told : d ≠ none) : c₁ = c := by
  cases h with
  | written => exact Option.some.inj on
  | committed => exact Option.some.inj on
  | _ => exact absurd rfl told

/-- Only a change and the end of a batch tell anything. -/
theorem Touch.eq_none {c : ComponentId} {k k' : Component Code} {a : Act Code Store}
    {d : Option (Delivery Code)} (h : Touch c k a k' d) (change : ∀ changes options, a ≠ .change c changes options)
    (commit : ∀ holder, a ≠ .commit c holder) : d = none := by
  cases h with
  | written => exact absurd rfl (change _ _)
  | committed => exact absurd rfl (commit _)
  | _ => rfl

namespace Backend

/-- An act that changes at most one component, keeps its phase and tells nothing. -/
structure Quiet (b b' : Backend Code Store) (c : ComponentId) : Prop where
  others : ∀ c', c' ≠ c → b'.component? c' = b.component? c'
  own : ∀ k, b.component? c = some k →
    ∃ k', b'.component? c = some k' ∧ k'.session = k.session ∧ k'.phase = k.phase
  arena : ∀ s, (b'.session s).arena = (b.session s).arena
  sent : ∀ s, b'.sentTo s = b.sentTo s

variable {b b' : Backend Code Store} {c : ComponentId} {a : Act Code Store}

theorem Still.quiet (h : b.Still b') (c : ComponentId) : Quiet b b' c where
  others c' _ := h.components c'
  own k hk := ⟨k, (h.components c).trans hk, rfl, rfl⟩
  arena := h.arena
  sent := h.sent

/-- What an act on a component does when nothing is told of what it makes of the component. -/
theorem quiet_or_retired_of_on (on : a.on? = some c) (activate : a ≠ .activate c)
    (untold : ∀ {k k' d}, b.component? c = some k → Touch c k a k' d → d = none) :
    Quiet b (a.apply b) c ∨ ∃ k, b.component? c = some k ∧ k.phase ≠ .destroyed ∧ a.apply b = b.retired c k := by
  have hothers : ∀ c', c' ≠ c → (a.apply b).component? c' = b.component? c' :=
    fun c' hne => component?_apply_of_other on hne
  have heffect := effect_apply b a
  generalize a.apply b = b' at hothers heffect
  cases heffect with
  | still same => exact .inl (same.quiet c)
  | opened | sent | closed | skipped | enrolled => cases on
  | @retired _ c₁ k act component live =>
      have hc : c₁ = c := by obtain rfl | rfl := act <;> exact Option.some.inj on
      subst hc
      exact .inr ⟨k, component, live, rfl⟩
  | @touched _ c₁ k k' d _ component touch told =>
      have hnone : d = none := by
        by_contra hd
        obtain rfl := touch.eq_of_told on hd
        exact hd (untold component touch)
      subst hnone
      refine .inl ⟨hothers, fun k₀ hk₀ => ?_, told.arena, told.sent⟩
      rw [told.components, component?_tell]
      split
      · next hc =>
        subst hc
        rw [component] at hk₀
        cases hk₀
        exact ⟨k', rfl, touch.session, touch.phase.resolve_right fun h => activate h.1⟩
      · exact ⟨k₀, hk₀, rfl, rfl⟩

/-- An act that touches only one component, and of which nothing is told, leaves everything else as it is, or
ends the component. -/
theorem quiet_or_retired (coherent : Coherent b) (only : a.touchesOnly c = true) (activate : a ≠ .activate c)
    (untold : ∀ {k k' d}, b.component? c = some k → Touch c k a k' d → d = none) :
    Quiet b (a.apply b) c ∨ ∃ k, b.component? c = some k ∧ k.phase ≠ .destroyed ∧ a.apply b = b.retired c k := by
  obtain hon | ⟨haside, -, hunsent⟩ := Act.touchesOnly_cases only
  · exact quiet_or_retired_of_on hon activate untold
  · refine .inl ⟨fun c' _ => component?_apply_of_not_isOfComponents haside c', fun k hk => ?_, fun s => ?_,
      fun s => sentTo_apply_of_not_isOfComponents haside fun m => hunsent s m⟩
    · exact ⟨k, (component?_apply_of_not_isOfComponents haside c).trans hk, rfl, rfl⟩
    · cases a with
      | openSession config channel =>
          rw [Act.apply, session_openSession]
          split
          · next hs =>
            have hnew : b.hasSession s = false :=
              Bool.eq_false_iff.2 fun hknown => Nat.ne_of_lt (coherent.session_lt hknown) hs
            rw [session_of_not_hasSession hnew]
            rfl
          · rfl
      | send s' m => exact absurd rfl (hunsent s' m)
      | enroll | close | activate | abandon | destroy | change | openBatch | beginBatch | commit | drop | listen
      | unlisten => cases haside
      | _ => exact (still_apply rfl b).arena s

/-! ## what has come of a creation -/

/-- What has come of a component of a session since a state: no other component has changed and none has joined
or left an arena; nothing was told but the end of the component, unless the session is closed. -/
structure Confined (base b : Backend Code Store) (c : ComponentId) (s : SessionId) : Prop where
  others : ∀ c', c' ≠ c → b.component? c' = base.component? c'
  own : ∃ k, b.component? c = some k ∧ k.session = s
  arena : ∀ s', (b.session s').arena.filter (· ≠ c) = (base.session s').arena.filter (· ≠ c)
  elsewhere : ∀ s', s' ≠ s → b.sentTo s' = base.sentTo s'
  told : b.sentTo s = base.sentTo s ++ (if b.phase c = .destroyed then [.delete c] else []) ∨
    (b.session s).isClosed = true ∧ b.sentTo s = base.sentTo s

variable {base : Backend Code Store} {s : SessionId}

theorem Confined.hasSession (h : Confined base b c s) (coherent : Coherent b) : b.hasSession s = true := by
  obtain ⟨k, hk, rfl⟩ := h.own
  exact coherent.home hk

theorem Confined.quiet (h : Confined base b c s) (quiet : Quiet b b' c)
    (closed : (b.session s).isClosed = true → (b'.session s).isClosed = true) : Confined base b' c s := by
  obtain ⟨k, hk, hsession⟩ := h.own
  obtain ⟨k', hk', hsession', hphase⟩ := quiet.own k hk
  refine ⟨fun c' hne => (quiet.others c' hne).trans (h.others c' hne), ⟨k', hk', hsession'.trans hsession⟩,
    fun s' => ?_, fun s' hne => (quiet.sent s').trans (h.elsewhere s' hne), ?_⟩
  · rw [quiet.arena]
    exact h.arena s'
  · have hsame : b'.phase c = b.phase c := by
      rw [Backend.phase, Backend.phase, hk, hk']
      exact hphase
    rw [quiet.sent, hsame]
    exact h.told.imp_right fun hstopped => ⟨closed hstopped.1, hstopped.2⟩

theorem Confined.retired {k : Component Code} (h : Confined base b c s) (component : b.component? c = some k)
    (live : k.phase ≠ .destroyed) (active : s ∈ (b.retired c k).stack) : Confined base (b.retired c k) c s := by
  have hsession : k.session = s := by
    obtain ⟨k', hk', hsession⟩ := h.own
    rw [component] at hk'
    cases hk'
    exact hsession
  have hretired : (b.retired c k).component? c = some k.retire := by rw [component?_retired, if_pos rfl]
  refine ⟨fun c' hne => ?_, ⟨_, hretired, hsession⟩, fun s' => ?_, fun s' hne => ?_, ?_⟩
  · rw [component?_retired, if_neg hne]
    exact h.others c' hne
  · rw [arena_retired]
    split
    · simp only [List.filter_filter, Bool.and_self]
      exact h.arena s'
    · exact h.arena s'
  · rw [sentTo_retired, if_neg fun hs => hne (hs.1.symm.trans hsession), List.append_nil]
    exact h.elsewhere s' hne
  · have hbefore : b.sentTo s = base.sentTo s := by
      have hphase : b.phase c ≠ .destroyed := by rw [Backend.phase, component]; exact live
      obtain hsent | ⟨-, hsent⟩ := h.told
      · rw [hsent, if_neg hphase, List.append_nil]
      · exact hsent
    have hphase : (b.retired c k).phase c = .destroyed := by rw [Backend.phase, hretired]; rfl
    have halive : (b.retired c k).isAlive s = true := by simp [isAlive, active]
    rw [sentTo_retired, hbefore, hphase, if_pos rfl, isOpen, halive, Bool.true_and]
    cases hclosed : ((b.retired c k).session s).isClosed with
    | false => exact .inl (by simp [hsession])
    | true => exact .inr ⟨rfl, by simp⟩

/-- An act that touches only the component, and of which nothing is told but its end, keeps that. -/
theorem Confined.apply (h : Confined base b c s) (coherent : Coherent b) (active : s ∈ b.stack)
    (only : a.touchesOnly c = true) (activate : a ≠ .activate c)
    (untold : ∀ {k k' d}, b.component? c = some k → Touch c k a k' d → d = none) :
    Confined base (a.apply b) c s := by
  obtain hquiet | ⟨k, component, live, heq⟩ := quiet_or_retired coherent only activate untold
  · refine h.quiet hquiet fun hclosed => ?_
    exact (isClosed_effect coherent (effect_apply b a) (h.hasSession coherent) hclosed).2
  · have hstack := (sameActivity_apply coherent (Act.activates_of_touchesOnly only)).stack
    rw [heq] at hstack ⊢
    exact h.retired component live (hstack ▸ active)

/-- The code that sets the first values keeps that, while a batch keeps back what it changes. -/
theorem confined_play {acts : List (Act Code Store)} (h : Confined base b c s) (coherent : Coherent b)
    (held : b.Withheld c) (active : s ∈ b.stack) (only : ∀ a ∈ acts, a.touchesOnly c = true)
    (activate : .activate c ∉ acts) (commit : .commit c .scope ∉ acts) (drop : .drop c .scope ∉ acts) :
    Confined base (b.play acts) c s := by
  induction acts generalizing b with
  | nil => exact h
  | cons a acts ih =>
      simp only [List.mem_cons, not_or] at activate commit drop
      obtain ⟨honly, hrest⟩ := List.forall_mem_cons.1 only
      have hactive : s ∈ (a.apply b).stack := by
        rw [(sameActivity_apply coherent (Act.activates_of_touchesOnly honly)).stack]
        exact active
      have hfirst := h.apply coherent active honly (Ne.symm activate.1)
        fun component touch => held.untold coherent component touch (Ne.symm commit.1)
      have hheld := held.apply coherent (Ne.symm activate.1) (Ne.symm commit.1) (Ne.symm drop.1)
      exact ih hfirst (coherent.apply a) hheld hactive hrest activate.2 commit.2 drop.2

/-! ## a component that is abandoned -/

theorem confined_refl {kind : Kind Code} (new : b.component? c = some (.new kind s)) : Confined b b c s := by
  refine ⟨fun _ _ => rfl, ⟨_, new, rfl⟩, fun _ => rfl, fun _ _ => rfl, .inl ?_⟩
  have hphase : b.phase c = .constructing := by rw [Backend.phase, new]; rfl
  rw [hphase, if_neg (by decide), List.append_nil]

theorem phase_abandon {k : Component Code} (component : b.component? c = some k) :
    ((Act.abandon c).apply b).phase c = .destroyed := by
  simp only [Act.apply, destroy, component]
  split
  · next hphase =>
    rw [afterTry, Backend.phase, component]
    exact hphase
  · show (b.retired c k).phase c = _
    rw [Backend.phase, component?_retired, if_pos rfl]
    rfl

/-- The acts around those of the code that sets the first values, when that fails. -/
def abandoning (c : ComponentId) (acts : List (Act Code Store)) : List (Act Code Store) :=
  .openBatch c .scope {} :: (acts ++ [.drop c .scope, .abandon c])

theorem touchesOnly_abandoning {acts : List (Act Code Store)} (only : ∀ a ∈ acts, a.touchesOnly c = true) :
    ∀ a ∈ abandoning c acts, a.touchesOnly c = true := by
  intro a ha
  simp only [abandoning, List.mem_cons, List.mem_append, List.not_mem_nil, or_false] at ha
  obtain rfl | ha | rfl | rfl := ha
  · simp [Act.touchesOnly, Act.on?]
  · exact only a ha
  · simp [Act.touchesOnly, Act.on?]
  · simp [Act.touchesOnly, Act.on?]

theorem openBatch_new {kind : Kind Code} (new : b.component? c = some (.new kind s)) :
    b.openBatch c .scope {} =
      .ok (b.setComponent c { Component.new kind s with batch := some ⟨.scope, [], {}⟩ }) :=
  Callbacks.openBatch_of_unbatched new (by simp [Component.new]) rfl .scope

theorem withheld_openBatch {kind : Kind Code} (new : b.component? c = some (.new kind s)) :
    ((Act.openBatch c .scope {}).apply b).Withheld c := by
  rw [Act.apply, openBatch_new new]
  refine ⟨_, (component?_setComponent b c c _).trans (if_pos rfl), .inr ⟨_, rfl, rfl⟩⟩

/-- When the code that sets the first values touches only the component and fails, nothing has come of the
creation but the end of the component. -/
theorem confined_abandoning {kind : Kind Code} {acts : List (Act Code Store)} (coherent : Coherent b)
    (new : b.component? c = some (.new kind s)) (active : s ∈ b.stack)
    (only : ∀ a ∈ acts, a.touchesOnly c = true) (activate : .activate c ∉ acts)
    (commit : .commit c .scope ∉ acts) (drop : .drop c .scope ∉ acts) :
    Confined b (b.play (abandoning c acts)) c s ∧ (b.play (abandoning c acts)).phase c = .destroyed := by
  have honly := touchesOnly_abandoning only
  have hstack : ∀ pre, pre <+: abandoning c acts → s ∈ (b.play pre).stack := by
    intro pre hpre
    have hidle : ∀ a ∈ pre, a.activates = false := fun a ha =>
      Act.activates_of_touchesOnly (honly a (hpre.subset ha))
    rw [(settled_play coherent hidle).stack]
    exact active
  have hopened : Confined b ((Act.openBatch c .scope {}).apply b) c s :=
    (confined_refl new).apply coherent active (honly _ List.mem_cons_self) nofun
      fun _ touch => touch.eq_none nofun nofun
  have hcoherent := coherent.apply (.openBatch c .scope {})
  have hran := confined_play hopened hcoherent (withheld_openBatch new)
    (hstack [.openBatch c .scope {}] (List.prefix_append _ _)) only activate commit drop
  have hcoherent₁ := hcoherent.play acts
  have hdropped := hran.apply hcoherent₁
    (hstack (.openBatch c .scope {} :: acts) (List.prefix_append _ _)) (a := .drop c .scope)
    (honly _ (by simp [abandoning])) nofun fun _ touch => touch.eq_none nofun nofun
  have hcoherent₂ := hcoherent₁.apply (.drop c .scope)
  have hlast : b.play (abandoning c acts) = (Act.abandon c).apply ((Act.drop c .scope).apply
      (((Act.openBatch c .scope {}).apply b).play acts)) := by
    simp [abandoning]
  have hbefore : .openBatch c .scope {} :: (acts ++ [.drop c .scope]) <+: abandoning c acts :=
    ⟨[.abandon c], by simp [abandoning]⟩
  have hactive := hstack _ hbefore
  rw [play_cons, play_append, play_cons, play_nil] at hactive
  rw [hlast]
  refine ⟨hdropped.apply hcoherent₂ hactive (honly _ (by simp [abandoning])) nofun
    fun _ touch => touch.eq_none nofun nofun, ?_⟩
  obtain ⟨k, hk, -⟩ := hdropped.own
  exact phase_abandon hk

end Backend

/-! ## runs that fail -/

namespace Run

theorem finish_inside (s : SessionId) (x : Run Code Store α) (b : Backend Code Store) :
    (Run.inside s x).finish b =
      (x.ending (b.enter s false).2, (x.last (b.enter s false).2).leaveNumber b.nextGuard) :=
  finish_andThen x (fun ending => .act (.leave b.nextGuard) (.ended ending)) (b.enter s false).2

theorem last_bind_of_value {β : Type} {x : Run Code Store α} {b : Backend Code Store} {a : α}
    (h : x.ending b = .value a) (f : α → Run Code Store β) : (x >>= f).last b = (f a).last (x.last b) :=
  congrArg Prod.snd (finish_bind_of_value (Prod.ext h rfl) f)

/-- Nothing is cleaned up behind a value. -/
theorem onPanic_of_value {x : Run Code Store α} {cleanup : Act Code Store} {b : Backend Code Store} {a : α}
    (h : (x.onPanic cleanup).ending b = .value a) :
    x.ending b = .value a ∧ (x.onPanic cleanup).last b = x.last b := by
  have hfinish : (x.onPanic cleanup).finish b = _ := finish_andThen x _ b
  rw [ending, hfinish] at h
  rw [last, hfinish]
  cases hending : x.ending b with
  | value a' => rw [hending] at h; exact ⟨h, rfl⟩
  | panicked p => rw [hending] at h; cases h
  | exhausted => rw [hending] at h; cases h

end Run

namespace Callbacks

variable {calls : Callbacks Code (Run Code Store)} {b : Backend Code Store} {c : ComponentId}
  {s : SessionId} {kind : Kind Code} {e : ComponentError}

/-- A batch that begins fails with the error of what runs in it, and what it kept back is dropped. -/
theorem last_of_failed_batch {ε : Type} {fail : ComponentError → ε} {body : Run Code Store (Except ε α)}
    {b₁ : Backend Code Store} {e : ε} (opened : b.openBatch c .scope {} = .ok b₁)
    (failed : (calls.batch c fail body).ending b = .value (.error e)) :
    body.ending b₁ = .value (.error e) ∧
      (calls.batch c fail body).last b = (Act.drop c .scope).apply (body.last b₁) := by
  have hopen : (Run.attempt (.openBatch c .scope {}) (·.openBatch c .scope {}) :
      Run Code Store (Except ComponentError Unit)).finish b = (.value (.ok ()), b₁) := by
    show (Ending.value ((b.openBatch c .scope {}).map fun _ => ()), b.afterTry (b.openBatch c .scope {})) = _
    rw [opened]
    rfl
  have hbatch : (calls.batch c fail body).finish b = _ := Run.finish_bind_of_value hopen _
  rw [Run.ending, hbatch] at failed
  obtain ⟨outcome, hran, hfailed⟩ := Run.value_of_bind failed
  obtain ⟨hbody, hlast⟩ := Run.onPanic_of_value hran
  have hbehind : (calls.batch c fail body).last b = _ :=
    (congrArg Prod.snd hbatch).trans (Run.last_bind_of_value hran _)
  cases outcome with
  | ok a =>
      obtain ⟨-, -, hfailed⟩ := Run.value_of_bind hfailed
      cases hfailed
  | error e' =>
      cases hfailed
      rw [hbehind, ← hlast]
      exact ⟨hbody, rfl⟩

/-- A component that cannot be brought to life is abandoned, with the error of the code that sets its first
values. -/
theorem last_of_failed_setUp (new : b.component? c = some (.new kind s))
    (failed : (calls.setUp kind c).ending b = .value (.error e)) :
    let opened := (Act.openBatch c .scope {}).apply b
    (calls.initKind kind c).ending opened = .value (.error e) ∧
      (calls.setUp kind c).last b =
        b.play (Backend.abandoning c ((calls.initKind kind c).acts opened)) := by
  have hopen : b.openBatch c .scope {} = .ok ((Act.openBatch c .scope {}).apply b) := by
    rw [Act.apply, Backend.openBatch_new new]
    rfl
  obtain ⟨outcome, hbatch, hfailed⟩ := Run.value_of_bind failed
  cases outcome with
  | ok _ => cases hfailed
  | error e' =>
      cases hfailed
      obtain ⟨hinit, hlast⟩ := last_of_failed_batch hopen hbatch
      have hbehind : (calls.setUp kind c).last b = _ := Run.last_bind_of_value hbatch _
      refine ⟨hinit, ?_⟩
      rw [hbehind, hlast, Run.finish_eq_play (calls.initKind kind c)]
      simp only [Backend.abandoning, Backend.play_cons, Backend.play_append, Backend.play_nil]
      rfl

/-- How a creation fails: the view does not compile, the component cannot join the session, or it cannot be
brought to life. -/
theorem failed_create_cases (failed : (calls.create s kind).ending b = .value (.error e)) :
    let b₁ := (b.enter s false).2
    (∃ refused, (calls.viewOf kind).definition.1 = .error refused ∧ e = .compile refused ∧
      (calls.create s kind).last b = b₁.leaveNumber b.nextGuard) ∨
    ∃ d, (calls.viewOf kind).definition.1 = .ok d ∧
      ((b₁.enroll s kind d).1 = .error e ∧
          (calls.create s kind).last b = (b₁.enroll s kind d).2.leaveNumber b.nextGuard ∨
        (b₁.enroll s kind d).1 = .ok b₁.nextComponent ∧
          (calls.setUp kind b₁.nextComponent).ending (b₁.enroll s kind d).2 = .value (.error e) ∧
          (calls.create s kind).last b =
            ((calls.setUp kind b₁.nextComponent).last (b₁.enroll s kind d).2).leaveNumber b.nextGuard) := by
  intro b₁
  cases hcompiled : (calls.viewOf kind).definition.1 with
  | error refused =>
      have hcreate : calls.create s kind = Run.inside s (pure (.error (.compile refused))) := by
        rw [create, hcompiled]
      rw [hcreate, Run.ending, Run.finish_inside] at failed
      rw [hcreate, Run.last, Run.finish_inside]
      cases failed
      exact .inl ⟨refused, rfl, rfl, rfl⟩
  | ok d =>
      refine .inr ⟨d, rfl, ?_⟩
      rw [create_of_compiled calls hcompiled, Run.ending, Run.finish_inside] at failed
      rw [create_of_compiled calls hcompiled, Run.last, Run.finish_inside]
      obtain ⟨answer, hanswer, hfailed⟩ := Run.value_of_bind failed
      rw [Run.last_bind_of_value hanswer]
      have hanswered : (b₁.enroll s kind d).1 = answer := Ending.value.inj hanswer
      cases answer with
      | error e' =>
          cases hfailed
          exact .inl ⟨hanswered, rfl⟩
      | ok c =>
          obtain rfl := Backend.eq_nextComponent_of_enroll hanswered
          exact .inr ⟨hanswered, hfailed, rfl⟩

end Callbacks

/-! ## creations that fail -/

namespace Backend

variable {b b' b₁ b₂ : Backend Code Store} {c : ComponentId} {s : SessionId} {kind : Kind Code}
  {d : ViewDefinition} {e : ComponentError}

/-- The second state is as the first one but for one component: the same activations last, the other components
are as they were, and the same ones are in the arenas. -/
structure Undone (b b' : Backend Code Store) (c : ComponentId) : Prop extends Settled b b' where
  others : ∀ c', c' ≠ c → b'.component? c' = b.component? c'
  arena : ∀ s, (b'.session s).arena = (b.session s).arena

/-- Nothing was told, and the same views are known. -/
structure Unannounced (b b' : Backend Code Store) : Prop where
  sent : ∀ s, b'.sentTo s = b.sentTo s
  views : ∀ s, (b'.session s).views = (b.session s).views

/-- The messages about the next component, if it is created and destroyed: its view on first use, the component,
and its end. -/
def lifetime (b : Backend Code Store) (s : SessionId) (d : ViewDefinition) : List Message :=
  b.firstUse s d ++ [.create b.nextComponent d.viewRef.render, .delete b.nextComponent]

/-- The next component has been created and is destroyed. Of that its session was told, unless it is closed, and
no other one. -/
structure Ended (b b' : Backend Code Store) (s : SessionId) (d : ViewDefinition) : Prop where
  destroyed : ∃ k, b'.component? b.nextComponent = some k ∧ k.session = s ∧ k.phase = .destroyed
  elsewhere : ∀ s', s' ≠ s → b'.sentTo s' = b.sentTo s'
  told : ∃ sent, b'.sentTo s = b.sentTo s ++ sent ∧ sent <+: b.lifetime s d ∧
    ((b'.session s).isClosed = false → sent = b.lifetime s d)

/-! ### the activation around a creation -/

theorem Undone.leave (h : Enterable b s) (undone : Undone (b.enter s false).2 b' c) :
    Undone b (b'.leaveNumber b.nextGuard) c where
  toSettled := undone.toSettled.leave h
  others c' hne :=
    ((((Still.refl b').leaveNumber _).components c').trans (undone.others c' hne)).trans
      (((Still.refl b).enter s false).components c')
  arena s' :=
    ((((Still.refl b').leaveNumber _).arena s').trans (undone.arena s')).trans
      (((Still.refl b).enter s false).arena s')

theorem Unannounced.leave (h : Unannounced (b.enter s false).2 b') (guard : GuardId) :
    Unannounced b (b'.leaveNumber guard) where
  sent s' :=
    ((((Still.refl b').leaveNumber guard).sent s').trans (h.sent s')).trans
      (((Still.refl b).enter s false).sent s')
  views s' :=
    ((((Still.refl b').leaveNumber guard).views s').trans (h.views s')).trans
      (((Still.refl b).enter s false).views s')

theorem lifetime_enter (b : Backend Code Store) (s : SessionId) (d : ViewDefinition) :
    (b.enter s false).2.lifetime s d = b.lifetime s d := by
  have hentered := (Still.refl b).enter s false
  simp only [lifetime, firstUse, hentered.views, hentered.nextComponent]

theorem Ended.leave (h : Ended (b.enter s false).2 b' s d) (guard : GuardId) :
    Ended b (b'.leaveNumber guard) s d := by
  have hentered := (Still.refl b).enter s false
  have hleft := (Still.refl b').leaveNumber guard
  obtain ⟨sent, hsent, hprefix, hopen⟩ := h.told
  rw [lifetime_enter] at hprefix hopen
  refine ⟨?_, fun s' hne => ?_, sent, ?_, hprefix, fun hleaves => hopen ?_⟩
  · obtain ⟨k, hk, hphase⟩ := h.destroyed
    rw [hentered.nextComponent] at hk
    exact ⟨k, (hleft.components _).trans hk, hphase⟩
  · rw [hleft.sent, h.elsewhere s' hne, hentered.sent]
  · rw [hleft.sent, hsent, hentered.sent]
  · exact Bool.eq_false_iff.2 fun hclosed => Bool.false_ne_true (hleaves.symm.trans (hleft.closed s hclosed))

/-! ### a component that has come to nothing -/

theorem undone_of_confined (coherent : Coherent b) (parts : Enrolled b b₁ s kind d) (coherent' : Coherent b')
    (settled : Settled b b') (confined : Confined b₁ b' b.nextComponent s)
    (destroyed : b'.phase b.nextComponent = .destroyed) : Undone b b' b.nextComponent where
  toSettled := settled
  others c' hne := (confined.others c' hne).trans ((parts.components c').trans (if_neg hne))
  arena s' := by
    have hfresh : ∀ {arena : List ComponentId}, b.nextComponent ∉ arena →
        arena.filter (· ≠ b.nextComponent) = arena := by
      intro arena hnot
      refine List.filter_eq_self.2 fun c' hc' => ?_
      exact decide_eq_true fun heq => hnot (heq ▸ hc')
    have hleft : b.nextComponent ∉ (b'.session s').arena := by
      intro hmem
      obtain ⟨k, hk, -, hphase⟩ := coherent'.member hmem
      rw [Backend.phase, hk] at destroyed
      exact hphase destroyed
    have hunborn : ∀ s₀, b.nextComponent ∉ (b.session s₀).arena := by
      intro s₀ hmem
      obtain ⟨k, hk, -⟩ := coherent.member hmem
      exact Nat.lt_irrefl _ (coherent.component_lt hk)
    rw [← hfresh hleft, confined.arena, parts.arena]
    split
    · next hs =>
      rw [List.filter_append, hs, hfresh (hunborn s)]
      simp
    · exact hfresh (hunborn s')

/-- What is told of a component that has come to nothing. -/
theorem ended_of_confined (parts : Enrolled b b₁ s kind d)
    (closed : (b₁.session s).isClosed = true → (b'.session s).isClosed = true ∧ b'.sentTo s = b₁.sentTo s)
    (confined : Confined b₁ b' b.nextComponent s) (destroyed : b'.phase b.nextComponent = .destroyed) :
    Ended b b' s d := by
  refine ⟨?_, fun s' hne => (confined.elsewhere s' hne).trans (parts.elsewhere s' hne), ?_⟩
  · obtain ⟨k, hk, hsession⟩ := confined.own
    rw [Backend.phase, hk] at destroyed
    exact ⟨k, hk, hsession, destroyed⟩
  · cases hopen : (b₁.session s).isClosed with
    | true =>
        obtain ⟨hclosed, hsent⟩ := closed hopen
        have hnever : (b'.session s).isClosed = false → False := fun h => Bool.false_ne_true (h.symm.trans hclosed)
        obtain hshut | hfirst := parts.unsent hopen
        · exact ⟨[], by rw [hsent, hshut, List.append_nil], List.nil_prefix, fun h => (hnever h).elim⟩
        · exact ⟨b.firstUse s d, by rw [hsent, hfirst], List.prefix_append _ _, fun h => (hnever h).elim⟩
    | false =>
        have hmade := parts.sent hopen
        obtain hsent | ⟨hclosed, hsent⟩ := confined.told
        · refine ⟨b.lifetime s d, ?_, List.prefix_refl _, fun _ => rfl⟩
          rw [hsent, hmade, destroyed, if_pos rfl]
          simp [lifetime]
        · refine ⟨b.firstUse s d ++ [.create b.nextComponent d.viewRef.render], by rw [hsent, hmade], ?_,
            fun h => absurd (h.symm.trans hclosed) Bool.false_ne_true⟩
          exact ⟨[.delete b.nextComponent], by simp [lifetime]⟩

/-- A component of a session that is there cannot be created when its view stands for another source. -/
theorem enroll_refused (known : b.hasSession s = true) (refused : (b.enroll s kind d).1 = .error e) :
    ((b.session s).views.get? d.viewRef).any (·.digest ≠ d.digest) = true ∧ e = .duplicateViewRef d.viewRef ∧
      (b.enroll s kind d).2 = b.takeNumber := by
  rw [hasSession, Table.contains_eq_isSome, Option.isSome_iff_exists] at known
  obtain ⟨session, hsession⟩ := known
  have hof : b.session s = session := by rw [Backend.session, hsession]; rfl
  unfold enroll at refused ⊢
  rw [hsession] at refused ⊢
  dsimp only at refused ⊢
  rw [hof]
  split at refused
  · next hdiffers =>
    cases refused
    rw [if_pos hdiffers]
    exact ⟨hdiffers, rfl, rfl⟩
  · cases refused

end Backend

namespace Callbacks

variable {calls : Callbacks Code (Prog Code Store)} {leave : Store → Store → Store} {nested : Nat}
  {b : Backend Code Store} {s : SessionId} {kind : Kind Code} {d : ViewDefinition} {e : ComponentError}

open Backend

/-- A component that is made, and comes to nothing by code that touches only it, is undone and has ended. -/
theorem setUp_comes_to_nothing (coherent : Coherent b) (active : s ∈ b.stack)
    (made : (b.enroll s kind d).1 = .ok b.nextComponent)
    (within : ∀ a ∈ ((calls.running leave nested).initKind kind b.nextComponent).acts
      (b.play [.enroll s kind d, .openBatch b.nextComponent .scope {}]), a.touchesOnly b.nextComponent = true)
    (failed : ((calls.running leave nested).setUp kind b.nextComponent).ending (b.enroll s kind d).2 =
      .value (.error e)) :
    let b' := ((calls.running leave nested).setUp kind b.nextComponent).last (b.enroll s kind d).2
    b.Undone b' b.nextComponent ∧ b.Ended b' s d := by
  intro b'
  have parts := enrolled_of_enroll made
  have hcoherent := coherent.enrolled parts
  have hnew : (b.enroll s kind d).2.component? b.nextComponent = some (.new kind s) := by
    rw [parts.components, if_pos rfl]
  have hactivity : SameActivity b (b.enroll s kind d).2 := (SameActivity.refl b).enroll s kind d
  obtain ⟨-, hlast⟩ := last_of_failed_setUp hnew failed
  obtain ⟨hactivate, -, hcommit, hdrop⟩ := initKind_keeps calls leave nested kind b.nextComponent
    (hcoherent.apply (.openBatch b.nextComponent .scope {})) (withheld_openBatch hnew)
  have hidle := touchesOnly_abandoning within
  obtain ⟨hconfined, hdestroyed⟩ := confined_abandoning hcoherent hnew (hactivity.stack ▸ active) within
    hactivate hcommit hdrop
  have hsettled := settled_play hcoherent fun a ha => Act.activates_of_touchesOnly (hidle a ha)
  have hplayed : b' = (b.enroll s kind d).2.play _ := hlast
  rw [hplayed]
  refine ⟨undone_of_confined coherent parts (hcoherent.play _) (hactivity.settled.trans hsettled) hconfined
    hdestroyed, ended_of_confined parts (fun hclosed => ?_) hconfined hdestroyed⟩
  have hknown : (b.enroll s kind d).2.hasSession s = true := hcoherent.home hnew
  exact ⟨isClosed_play hcoherent hknown hclosed _, sentTo_play_of_isClosed hcoherent hknown hclosed _⟩

end Callbacks

/-- A creation that fails leaves no trace but what was told of the lifetime of the component. In any state behind
acts, let an open session create a component by code that touches only that component. If that fails, the arenas,
the other components and the activations are as before. When the view does not compile, or its reference stands
for another source, nothing is told and no view has become known. Otherwise the component is destroyed, and its
lifetime is what was told, up to the frame that was refused, if one was. -/
theorem failed_creation_leaves_no_trace (calls : Callbacks Code (Prog Code Store))
    (leave : Store → Store → Store) (nested : Nat) (store : Store) (before : List (Act Code Store))
    {b : Backend Code Store} (reached : b = (Backend.init store).play before) {s : SessionId}
    (opening : Backend.EnteredAfterOpening (.init store) before s) (unclosed : (b.session s).isClosed = false)
    (kind : Kind Code)
    (within : ∀ d, (calls.viewOf kind).definition.1 = .ok d →
      ∀ a ∈ ((calls.running leave nested).initKind kind b.nextComponent).acts
        (b.play [.enter s false, .enroll s kind d, .openBatch b.nextComponent .scope {}]),
      a.touchesOnly b.nextComponent = true)
    {e : ComponentError}
    (failed : ((calls.running leave nested).create s kind).ending b = .value (.error e)) :
    let b' := ((calls.running leave nested).create s kind).last b
    b.Undone b' b.nextComponent ∧
    (∀ refused, (calls.viewOf kind).definition.1 = .error refused → e = .compile refused ∧ b.Unannounced b') ∧
    (∀ d, (calls.viewOf kind).definition.1 = .ok d →
      (((b.session s).views.get? d.viewRef).any (·.digest ≠ d.digest) = true →
        e = .duplicateViewRef d.viewRef ∧ b.Unannounced b') ∧
      (((b.session s).views.get? d.viewRef).any (·.digest ≠ d.digest) = false → b.Ended b' s d)) := by
  intro b'
  have coherent : Backend.Coherent b := reached ▸ Backend.coherent_play store before
  obtain ⟨numbered, balanced⟩ := Backend.balanced_play opening (List.prefix_refl before)
  rw [← reached] at numbered balanced
  have enterable : Backend.Enterable b s := ⟨Backend.hasSession_of_not_isClosed unclosed, numbered, balanced.idle⟩
  have hviewOf : (calls.running leave nested).viewOf kind = calls.viewOf kind := by
    rw [Callbacks.running, viewOf_map]
  have hentered := (Backend.Still.refl b).enter s false
  rw [← hentered.views]
  obtain ⟨refused, hrefused, rfl, hlast⟩ | ⟨d, hcompiled, ⟨hanswer, hlast⟩ | ⟨hmade, hfailed, hlast⟩⟩ :=
    Callbacks.failed_create_cases failed
  · -- nothing happens in the activation
    have hundone : (b.enter s false).2.Undone (b.enter s false).2 b.nextComponent :=
      ⟨.refl _, fun _ _ => rfl, fun _ => rfl⟩
    have hunannounced : (b.enter s false).2.Unannounced (b.enter s false).2 := ⟨fun _ => rfl, fun _ => rfl⟩
    rw [hviewOf] at hrefused
    rw [show b' = _ from hlast]
    refine ⟨hundone.leave enterable, fun refused' heq => ?_, fun d heq => ?_⟩
    · cases hrefused.symm.trans heq
      exact ⟨rfl, hunannounced.leave _⟩
    · cases hrefused.symm.trans heq
  · -- only a number is used up
    have hknown : (b.enter s false).2.hasSession s = true := (hentered.hasSession s).trans enterable.known
    obtain ⟨hdiffers, rfl, hsame⟩ := Backend.enroll_refused hknown hanswer
    rw [hsame] at hlast
    have hsettled : (b.enter s false).2.Settled (b.enter s false).2.takeNumber :=
      ⟨rfl, rfl, Nat.le_refl _, fun _ => rfl, fun _ => rfl⟩
    have hundone : (b.enter s false).2.Undone (b.enter s false).2.takeNumber b.nextComponent :=
      ⟨hsettled, fun _ _ => rfl, fun _ => rfl⟩
    have hunannounced : (b.enter s false).2.Unannounced (b.enter s false).2.takeNumber :=
      ⟨fun _ => rfl, fun _ => rfl⟩
    rw [hviewOf] at hcompiled
    rw [show b' = _ from hlast]
    refine ⟨hundone.leave enterable, fun refused heq => ?_, fun d' heq => ?_⟩
    · cases hcompiled.symm.trans heq
    · cases hcompiled.symm.trans heq
      exact ⟨fun _ => ⟨rfl, hunannounced.leave _⟩, fun hfits => absurd (hfits.symm.trans hdiffers) (by decide)⟩
  · -- the component is made, and the code that sets its first values fails
    have hactive : s ∈ (b.enter s false).2.stack := by
      rw [(b.rewired_enter s false).stack]
      simp [Backend.begun]
    rw [hviewOf] at hcompiled
    have hwithin := within d hcompiled
    rw [← hentered.nextComponent] at hwithin ⊢
    obtain ⟨hundone, hended⟩ :=
      Callbacks.setUp_comes_to_nothing (coherent.apply (.enter s false)) hactive hmade hwithin hfailed
    have hfits := (Backend.enrolled_of_enroll hmade).fits
    rw [show b' = _ from hlast]
    refine ⟨hundone.leave enterable, fun refused heq => ?_, fun d' heq => ?_⟩
    · cases hcompiled.symm.trans heq
    · cases hcompiled.symm.trans heq
      exact ⟨fun hdiffers => absurd (hfits.symm.trans hdiffers) (by decide), fun _ => hended.leave _⟩

/-! ## a component whose first values cannot be set -/

namespace Sample

/-- Sets a field, and fails then, because it reads another one that is not there. -/
def failing : Callbacks Unit (Prog Unit Unit) where
  view _ := view ⟨"app", "", "View"⟩ ""
  init _ c := do
    let _ ← Prog.request (.update c [("n", .int 1)] {})
    return .error (.unknownField c "max")
  adjust _ _ changes := pure (.ok changes)
  request _ _ _ := pure (.ok ())
  listener _ _ _ := pure ()
  task _ := pure ()
  body _ := pure (.ok .null)

/-- The callbacks of that component as they run. -/
def failingCalls : Callbacks Unit (Run Unit Unit) := failing.running (fun _ after => after) 2

/-- A new session whose channel has room for some frames; without a number there is no limit. -/
def limited (room : Option Nat) : Backend Unit Unit :=
  (Backend.init ()).play [.openSession {} { room := room }]

/-- Creates a component that fails. -/
def attempt : Run Unit Unit (Except ComponentError ComponentId) := failingCalls.create 1 (.custom ())

theorem opening_limited :
    Backend.EnteredAfterOpening (.init () : Backend Unit Unit) [.openSession {} {}] 1 := by
  intro pre held hpoint
  have hmem := hpoint.subset List.mem_concat_self
  simp at hmem

theorem within_failing {room : Option Nat} (some_ : room = none ∨ room = some 1) (d : ViewDefinition)
    (h : (failing.viewOf (.custom ())).definition.1 = .ok d) :
    ∀ a ∈ (failingCalls.initKind (.custom ()) 1).acts ((limited room).play
        [.enter 1 false, .enroll 1 (.custom ()) d, .openBatch 1 .scope {}]),
      a.touchesOnly 1 = true := by
  obtain rfl : (⟨⟨"app", "", "View"⟩, "View", [], "", ""⟩ : ViewDefinition) = d := Except.ok.inj h
  obtain rfl | rfl := some_
  · decide
  · decide

end Sample

/-- The view is told, the component and its end; the field that was set is not. -/
theorem failing_leaves_no_trace :
    Sample.attempt.ending (Sample.limited none) = .value (.error (.unknownField 1 "max")) ∧
      (Sample.limited none).Undone (Sample.attempt.last (Sample.limited none)) 1 ∧
      (∃ k, (Sample.attempt.last (Sample.limited none)).component? 1 = some k ∧ k.session = 1 ∧
        k.phase = .destroyed) ∧
      (Sample.attempt.last (Sample.limited none)).sentTo 1 =
        [.define "app::View" "View" "", .create 1 "app::View", .delete 1] := by
  have hfailed : Sample.attempt.ending (Sample.limited none) = .value (.error (.unknownField 1 "max")) := rfl
  obtain ⟨hundone, -, htold⟩ := failed_creation_leaves_no_trace Sample.failing (fun _ after => after) 2 ()
    [.openSession {} {}] (b := Sample.limited none) rfl Sample.opening_limited rfl (.custom ())
    (Sample.within_failing (.inl rfl)) hfailed
  have hended := (htold _ rfl).2 rfl
  obtain ⟨sent, hsent, -, hall⟩ := hended.told
  refine ⟨hfailed, hundone, hended.destroyed, ?_⟩
  rw [hall rfl] at hsent
  exact hsent

/-- A frame that is refused closes the session, and the rest of the lifetime is not told. Here neither the
component nor its end is, although the session was open and the code touches only the component. -/
theorem refused_frame_cuts_lifetime :
    ((Sample.limited (some 1)).session 1).isClosed = false ∧
      (∀ d, (Sample.failing.viewOf (.custom ())).definition.1 = .ok d →
        (∀ a ∈ (Sample.failingCalls.initKind (.custom ()) 1).acts ((Sample.limited (some 1)).play
            [.enter 1 false, .enroll 1 (.custom ()) d, .openBatch 1 .scope {}]), a.touchesOnly 1 = true) ∧
        (Sample.attempt.last (Sample.limited (some 1))).sentTo 1 ≠
          (Sample.limited (some 1)).sentTo 1 ++ (Sample.limited (some 1)).lifetime 1 d) ∧
      Sample.attempt.ending (Sample.limited (some 1)) = .value (.error (.unknownField 1 "max")) ∧
      (Sample.attempt.last (Sample.limited (some 1))).sentTo 1 = [.define "app::View" "View" ""] := by
  have hsent : (Sample.attempt.last (Sample.limited (some 1))).sentTo 1 = [.define "app::View" "View" ""] := rfl
  refine ⟨rfl, fun d hd => ⟨Sample.within_failing (.inr rfl) d hd, fun heq => ?_⟩, rfl, hsent⟩
  have hlength := congrArg List.length (hsent.symm.trans heq)
  have hbefore : (Sample.limited (some 1)).sentTo 1 = [] := rfl
  rw [hbefore, List.nil_append, Backend.lifetime, List.length_append] at hlength
  exact absurd hlength (by simp)

end ViewSync
