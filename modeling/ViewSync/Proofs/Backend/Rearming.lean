import ViewSync.Proofs.Backend.Creation
import ViewSync.Proofs.Backend.Debouncing
import ViewSync.Proofs.Backend.Failures
import ViewSync.Proofs.Backend.Overtaking
import ViewSync.Proofs.Backend.Periodics

/-!
# ViewSync.Proofs.Backend.Rearming

The work of a tick. It takes the tick; if there is one the session runs its code, and when that comes to an end the
task is armed anew.

* `Callbacks.acts_fire_tick` — the acts of a tick;
* `Backend.TickEnds`, `rearms_execute` — in the course of every program a task is armed anew only at the end of a tick;
* `Callbacks.returns_run` — what a session runs comes to an end, whether it fails or not, unless it calls too deep or
  someone listens to the component in which the session shows its failures.
-/

namespace ViewSync

variable {Code Store α : Type}

/-! ## the acts of a tick -/

/-- A periodic task is armed anew behind a run that ends with a value. -/
def Ending.rearming (p : PeriodicId) : Ending α → List (Act Code Store)
  | .value _ => [.rearm p]
  | _ => []

namespace Callbacks

variable (calls : Callbacks Code (Run Code Store)) {b : Backend Code Store} {p : PeriodicId}

/-- When the timer of a periodic task fires, its tick is taken first. -/
theorem takeTick_prefix_fire (b : Backend Code Store) (p : PeriodicId) :
    [.takeTick p] <+: (calls.fire (.tick p)).acts b := by
  unfold fire
  rw [Run.acts_step_bind]
  exact List.prefix_append [_] _

/-- Nothing more happens when there is no tick. -/
theorem acts_fire_tick_of_none (untaken : (b.takeTick p).1 = none) :
    (calls.fire (.tick p)).acts b = [.takeTick p] := by
  unfold fire
  rw [Run.acts_step_bind, untaken]
  rfl

/-- The session runs the code of the tick, and then the task is armed anew. -/
theorem acts_fire_tick {s : SessionId} {code : Code} (taken : (b.takeTick p).1 = some (s, code)) :
    (calls.fire (.tick p)).acts b = .takeTick p :: ((calls.run s (calls.body code)).acts (b.takeTick p).2 ++
      ((calls.run s (calls.body code)).ending (b.takeTick p).2).rearming p) := by
  have hacts : (calls.run s (calls.body code) >>= fun _ => Run.modify (.rearm p)).acts (b.takeTick p).2 = _ :=
    Run.acts_andThen _ _ _
  unfold fire
  rw [Run.acts_step_bind, taken]
  refine congrArg (Act.takeTick p :: ·) (hacts.trans ?_)
  cases (calls.run s (calls.body code)).ending (b.takeTick p).2 <;> rfl

end Callbacks

/-! ## where a task is armed anew -/

theorem Backend.JustFired.behind {b : Backend Code Store} {job : Job Code} {before q : List (Act Code Store)}
    (h : (b.play before).JustFired job q) : b.JustFired job (before ++ q) := by
  obtain ⟨q, target, t, rfl, hfires, hjob⟩ := h
  exact ⟨before ++ q, target, t, (List.append_assoc _ _ _).symm, by rwa [Backend.play_append], hjob⟩

/-- A timer that fired just now does not fire before the last act. -/
theorem Backend.JustFired.of_behind {b : Backend Code Store} {job : Job Code} {before q : List (Act Code Store)}
    (h : b.JustFired job (before ++ q)) (hq : q ≠ []) : (b.play before).JustFired job q := by
  obtain ⟨q, last, rfl⟩ := (List.eq_nil_or_concat' q).resolve_left hq
  rw [← List.append_assoc] at h
  obtain ⟨t, ht, hjob⟩ := justFired_concat.1 h
  rw [play_append] at ht
  exact justFired_concat.2 ⟨t, ht, hjob⟩

section

variable (calls : Callbacks Code (Prog Code Store)) (leave : Store → Store → Store)

/-- The timer of a periodic task fired, and its work comes to arming the task anew. -/
def Backend.TickEnds (b : Backend Code Store) (p : PeriodicId) (q : List (Act Code Store)) : Prop :=
  ∃ start work, q = start ++ work ∧ b.JustFired (.tick p) start ∧
    Fires calls leave (.tick p) (b.play start) (work ++ [.rearm p])

/-- Periodic tasks are armed anew only at the end of a tick that begins in the same course. -/
def Run.Rearms (x : Run Code Store α) : Prop :=
  ∀ b q p, q ++ [.rearm p] <+: x.acts b → b.TickEnds calls leave p q

variable {calls leave} {b : Backend Code Store} {p : PeriodicId} {q : List (Act Code Store)}

theorem Backend.TickEnds.behind {before : List (Act Code Store)} (h : (b.play before).TickEnds calls leave p q) :
    b.TickEnds calls leave p (before ++ q) := by
  obtain ⟨start, work, rfl, hfired, hwork⟩ := h
  exact ⟨before ++ start, work, (List.append_assoc _ _ _).symm, hfired.behind, by rwa [Backend.play_append]⟩

namespace Run

theorem Rearms.act {a : Act Code Store} {next : Run Code Store α} (other : ∀ p, a ≠ .rearm p)
    (h : next.Rearms calls leave) : (Run.act a next).Rearms calls leave := by
  intro b q p hq
  cases q with
  | nil => exact absurd (List.cons_prefix_cons.1 hq).1.symm (other p)
  | cons x q =>
      obtain ⟨rfl, hrest⟩ := List.cons_prefix_cons.1 hq
      have hends : (b.play [x]).TickEnds calls leave p q := h (x.apply b) q p hrest
      exact hends.behind

theorem closed_rearms : Closed fun α (x : Run Code Store α) => x.Rearms calls leave where
  ended ending b q p hq := by
    have hnone : q ++ [.rearm p] <+: [] := hq
    simp at hnone
  look h b := h b b
  act common h := by
    refine Rearms.act (fun p heq => ?_) h
    rw [heq] at common
    cases common
  andThen {α β x f} hx hf b q p hq := by
    rw [acts_andThen, finish_eq_play] at hq
    obtain hin | ⟨q, rfl, hmore⟩ := prefix_concat_append hq
    · exact hx b q p hin
    · exact (hf _ _ q p hmore).behind

end Run

/-! ### as the clock moves -/

section

variable {depth : Nat} (h : (calls.running leave depth).Each fun α (x : Run Code Store α) => x.Rearms calls leave)
  (reports : ∀ s error, ((calls.running leave depth).report s error).Rearms calls leave)

include h reports

/-- In the work of a timer a task is armed anew at the end of a tick within, or at the end of it all. -/
theorem rearms_fire {job : Job Code} (hq : q ++ [.rearm p] <+: ((calls.running leave depth).fire job).acts b) :
    b.TickEnds calls leave p q ∨
      job = .tick p ∧ ((calls.running leave depth).fire job).acts b = q ++ [.rearm p] := by
  have closed : Run.Closed fun α (x : Run Code Store α) => x.Rearms calls leave := Run.closed_rearms
  have hrun := fun s code => Callbacks.Each.run closed reports s (h.body code)
  cases job with
  | task code => exact .inl (h.task code b q p hq)
  | debounced d =>
      refine .inl (closed.bind (closed.look fun _ => .act (by simp) (closed.ended _)) (fun call => ?_) b q p hq)
      cases call with
      | none => exact closed.pure ()
      | some call => exact closed.bind (hrun _ _) fun _ => closed.pure ()
  | tick p' =>
      cases htaken : (b.takeTick p').1 with
      | none =>
          rw [Callbacks.acts_fire_tick_of_none _ htaken] at hq
          have hmem := hq.subset List.mem_concat_self
          simp at hmem
      | some tick =>
          rw [Callbacks.acts_fire_tick _ htaken] at hq ⊢
          cases q with
          | nil => cases (List.cons_prefix_cons.1 hq).1
          | cons x q =>
              obtain ⟨rfl, hrest⟩ := List.cons_prefix_cons.1 hq
              obtain hin | ⟨q, rfl, hlast⟩ := prefix_concat_append hrest
              · have hends : (b.play [.takeTick p']).TickEnds calls leave p q := hrun _ _ _ q p hin
                exact .inl hends.behind
              · generalize ((calls.running leave depth).run _ _).ending _ = ending at hlast ⊢
                cases ending with
                | value v =>
                    have hlength := hlast.length_le
                    obtain rfl : q = [] := by simpa [Ending.rearming] using hlength
                    obtain rfl : p = p' := Act.rearm.inj (List.cons_prefix_cons.1 hlast).1
                    exact .inr ⟨rfl, by simp [Ending.rearming]⟩
                | panicked | exhausted => simp [Ending.rearming] at hlast

/-- A move of the clock arms tasks anew at the ends of ticks. -/
theorem rearms_runDue (positive : 0 < depth) (target fuel ran : Nat) :
    ((calls.running leave depth).runDue target fuel ran).Rearms calls leave := by
  intro b q p hq
  obtain ⟨start, t, work, rfl, hfires, hwork⟩ | htake | ⟨hreach, -⟩ := Callbacks.runDue_cases _ hq
  · have hassoc : start ++ .takeDue target :: work = start ++ [.takeDue target] ++ work := by simp
    rw [hassoc]
    obtain hends | ⟨hjob, hacts⟩ := rearms_fire h reports hwork
    · exact hends.behind
    · exact ⟨_, work, rfl, Backend.justFired_concat.2 ⟨t, hfires, hjob⟩, depth, positive, hjob ▸ hacts.symm⟩
  · cases htake
  · cases hreach

end

/-- In the course of every program periodic tasks are armed anew only at the ends of ticks. -/
theorem rearms_execute (calls : Callbacks Code (Prog Code Store)) (leave : Store → Store → Store) (fuel : Nat)
    (program : Prog Code Store α) : (program.execute calls leave fuel).Rearms calls leave := by
  have closed : Run.Closed fun α (x : Run Code Store α) => x.Rearms calls leave := Run.closed_rearms
  refine closed.execute (fun fuel heach => ?_) fuel program
  have hbatches : ∀ {α ε} (c : ComponentId) (fail : ComponentError → ε) {body : Run Code Store (Except ε α)},
      body.Rearms calls leave → ((calls.running leave fuel).batch c fail body).Rearms calls leave :=
    fun c fail => heach.batch closed fun ha => .act (by rintro p rfl; cases ha)
  have hcreates := Callbacks.Each.create closed (fun c kind => hbatches c id (heach.initKind closed kind c))
    fun ha => .act (by rintro p rfl; cases ha)
  have hreports := heach.report closed hcreates (.act (by simp))
  refine ⟨hcreates, hreports, fun c body => hbatches c _ (heach.body body), fun by_ => ?_⟩
  refine closed.bind (closed.read _) fun now => ?_
  cases fuel with
  | zero => exact closed.ended _
  | succ fuel => exact rearms_runDue heach hreports (Nat.succ_pos fuel) _ _ _

namespace Backend

variable {program : Prog Code Store α} {fuel : Nat} {store : Store} {made acts : List (Act Code Store)}

/-- Before a periodic task is made no timer fires for it. -/
theorem not_justFired_of_new {a : Act Code Store} (course : program.course calls leave fuel store = made ++ a :: acts)
    (quiet : a.fires? ((init store).play made) = none) (hq : q <+: made ++ [a]) :
    ¬ (init store).JustFired (.tick ((init store).play made).periodics.size) q := by
  rintro ⟨before, target, t, rfl, hfires, hjob⟩
  have htimely : Timely (Fires calls leave) none (init store) (made ++ a :: acts) :=
    course ▸ timely_execute calls leave fuel program (init store)
  have howned : ∀ {q}, q <+: made → ((init store).play q).Owned := fun hq =>
    owned_play htimely (regular_init store) (owned_init store) (hq.trans (List.prefix_append _ _))
  obtain heq | hbefore := List.prefix_concat_iff.1 hq
  · obtain ⟨rfl, hact⟩ := List.append_inj' heq rfl
    rw [← List.singleton_inj.1 hact, hfires] at quiet
    cases quiet
  · obtain ⟨⟨t', clock⟩, hdue, rfl⟩ := Option.map_eq_some_iff.1 hfires
    obtain ⟨-, hpending, -⟩ := Clock.takeDue?_eq_some hdue
    have hmade := (List.prefix_append _ _).trans hbefore
    have hknown := (howned hmade).known t' (hpending ▸ List.mem_cons_self) _ hjob
    have hlater := play_later (P := fun b => ((init store).play made).periodics.size ∈ b.periodics.keys) hknown
      (fun _ a _ _ h => mem_periodics_apply h a) hmade (List.prefix_refl made)
    exact Nat.lt_irrefl _ ((howned (List.prefix_refl made)).numbered _ hlater)

/-- Behind its making a periodic task is armed anew only at the ends of ticks that begin there. -/
theorem tickEnds_of_rearm {s : SessionId} {w : Nat} {code : Code}
    (course : program.course calls leave fuel store = made ++ .newPeriodic s w code :: acts)
    (number : p = (((init store).play made).newPeriodic s w code).1) (hq : q ++ [.rearm p] <+: acts) :
    (((init store).play made).newPeriodic s w code).2.TickEnds calls leave p q := by
  have hnew : ∀ {q}, q <+: made ++ [.newPeriodic s w code] → ¬ (init store).JustFired (.tick p) q := fun hq =>
    number ▸ not_justFired_of_new course rfl hq
  have hwhole : made ++ [.newPeriodic s w code] ++ q ++ [.rearm p] <+: program.course calls leave fuel store := by
    rw [course, List.append_cons made _ acts, List.append_assoc _ q, List.prefix_append_right_inj]
    exact hq
  obtain ⟨start, work, heq, hfired, hwork⟩ := rearms_execute calls leave fuel program (init store) _ _ hwhole
  obtain hbefore | ⟨start, rfl⟩ :=
    List.prefix_or_prefix_of_prefix (List.prefix_append start work) (heq ▸ List.prefix_append _ q)
  · exact absurd hfired (hnew hbefore)
  · have hne : start ≠ [] := by
      rintro rfl
      rw [List.append_nil] at hfired
      exact hnew (List.prefix_refl _) hfired
    have hb : (init store).play (made ++ [.newPeriodic s w code]) =
        (((init store).play made).newPeriodic s w code).2 := by simp [Act.apply]
    rw [List.append_assoc _ start, List.append_cancel_left_eq] at heq
    rw [play_append, hb] at hwork
    exact ⟨start, work, heq, hb ▸ hfired.of_behind hne, hwork⟩

end Backend

end

/-! ## what comes to an end -/

/-- The listeners that are told of a change are those of the component. -/
theorem Component.listeners_of_write {c : ComponentId} {k k' : Component Code} {changes : Fields}
    {options : UpdateOptions} {d : Delivery Code} (h : k.write c changes options = .ok (k', some d)) :
    d.listeners = k.listenersFor options := by
  unfold write at h
  split at h
  · cases h
  · split at h
    · next batch _ =>
      cases hbuffer : k.buffer c batch changes options with
      | error e => simp [hbuffer, Except.map] at h
      | ok k'' => simp [hbuffer, Except.map] at h
    · split at h
      · cases h
      · cases h
        rfl

namespace Run

/-- From the given state a run ends with a value. -/
def Returns (x : Run Code Store α) (b : Backend Code Store) : Prop := ∃ a, x.ending b = .value a

variable {β : Type} {b : Backend Code Store} {acts : List (Act Code Store)} {a : α}

theorem returns_pure (a : α) (b : Backend Code Store) : (pure a : Run Code Store α).Returns b := ⟨a, rfl⟩

theorem Does.returns {x : Run Code Store α} (h : x.Does b acts a) : x.Returns b := ⟨a, h.ending_eq⟩

theorem Does.returns_bind {x : Run Code Store α} {f : α → Run Code Store β} (h : x.Does b acts a)
    (hf : (f a).Returns (b.play acts)) : (x >>= f).Returns b := by
  obtain ⟨v, hv⟩ := hf
  exact ⟨v, (h.ending_bind f).trans hv⟩

theorem Returns.bind {x : Run Code Store α} {f : α → Run Code Store β} (h : x.Returns b)
    (hf : ∀ a, (f a).Returns (x.last b)) : (x >>= f).Returns b := by
  obtain ⟨a, ha⟩ := h
  have hx : x.Does b (x.acts b) a := ⟨rfl, ha⟩
  exact hx.returns_bind (hx.last_eq ▸ hf a)

theorem Returns.read {f : Backend Code Store → α} {g : α → Run Code Store β} (h : (g (f b)).Returns b) :
    (Run.read f >>= g).Returns b := h

/-- Code that does not call too deep comes to an end, once its panics are caught. -/
theorem does_catchPanic {x : Run Code Store α} (bounded : x.ending b ≠ .exhausted) :
    ∃ outcome, x.catchPanic.Does b (x.acts b) outcome := by
  have hacts : x.catchPanic.acts b = _ := acts_andThen x _ b
  have hfinish : x.catchPanic.finish b = _ := finish_andThen x _ b
  cases hending : x.ending b with
  | value a => exact ⟨.ok a, by rw [hacts, hending]; exact List.append_nil _, by rw [ending, hfinish, hending]; rfl⟩
  | panicked p =>
      exact ⟨.error p, by rw [hacts, hending]; exact List.append_nil _, by rw [ending, hfinish, hending]; rfl⟩
  | exhausted => exact absurd hending bounded

theorem Returns.inside {s : SessionId} {x : Run Code Store α} (h : x.Returns (b.enter s false).2) :
    (Run.inside s x).Returns b := by
  obtain ⟨a, ha⟩ := h
  exact ⟨a, (congrArg Prod.fst (finish_inside s x b)).trans ha⟩

end Run

/-- Nobody listens to the component in which a session shows failures. -/
def Backend.Unheard (b : Backend Code Store) (s : SessionId) : Prop :=
  ∀ c k, b.shownIn? s = some c → b.component? c = some k → k.listeners = []

namespace Callbacks

variable (calls : Callbacks Code (Run Code Store)) {b : Backend Code Store} {s : SessionId} {c : ComponentId}

/-- A change of a component to which nobody listens is told to nobody. -/
theorem does_announceAny_of_change (unheard : ∀ k, b.component? c = some k → k.listeners = []) {changes : Fields}
    {options : UpdateOptions} {delivery : Option (Delivery Code)} {b' b'' : Backend Code Store}
    (change : b.change c changes options = .ok (delivery, b')) : (calls.announceAny c delivery).Does b'' [] () := by
  cases delivery with
  | none => exact Run.does_pure b'' ()
  | some d =>
      suffices hnobody : d.listeners = [] by
        rw [announceAny, hnobody]
        exact Run.does_pure b'' ()
      cases hc : b.component? c with
      | none => simp [Backend.change, hc] at change
      | some k =>
          cases hwrite : k.write c changes options with
          | error e => simp [Backend.change, hc, hwrite, Except.map] at change
          | ok written =>
              obtain ⟨k', delivery⟩ := written
              obtain rfl : delivery = some d := by simp_all [Backend.change, Except.map]
              rw [Component.listeners_of_write hwrite, Component.listenersFor, unheard k hc, ite_self]

/-- Showing a text comes to an end if nobody listens to the component, whatever its state is. -/
theorem returns_showText (builtIn : ∀ k, b.component? c = some k → ∃ text, k.kind = .diagnostic text)
    (unheard : ∀ k, b.component? c = some k → k.listeners = []) (text : String) :
    (calls.showText c text).Returns b := by
  obtain ⟨outcome, hadjusted⟩ :
      ∃ outcome, (calls.adjusted c (shownAs (b.shownText c text))).Does b [] outcome := by
    cases hc : b.component? c with
    | none => exact ⟨_, .read (by rw [hc]; exact Run.does_pure b _)⟩
    | some k =>
        obtain ⟨text, hkind⟩ := builtIn k hc
        cases hphase : k.phase with
        | destroyed => exact ⟨_, .read (by simp only [hc, hphase]; exact Run.does_pure b _)⟩
        | constructing => exact ⟨_, .read (by simp only [hc, hphase]; exact Run.does_pure b _)⟩
        | active => exact ⟨_, .read (by simp only [hc, hphase, hkind]; exact Run.does_pure b _)⟩
  have hupdate : (calls.update c (shownAs (b.shownText c text)) {}).Returns b := by
    unfold update
    rw [if_neg (by simp [shownAs])]
    refine hadjusted.returns_bind ?_
    cases outcome with
    | error e => exact Run.returns_pure _ _
    | ok changes =>
        dsimp only
        split
        · exact Run.returns_pure _ _
        · refine (Run.does_step _ _ _).returns_bind ?_
          rw [Backend.play_nil]
          cases hchange : b.change c changes {} with
          | error e => exact Run.returns_pure _ _
          | ok told =>
              refine (does_announceAny_of_change calls unheard hchange).returns_bind ?_
              exact Run.returns_pure _ _
  exact hupdate

/-- The report of a failure comes to an end if nobody listens to the component in which the session shows
failures. -/
theorem returns_report
    (builtIn : ∀ c k, b.shownIn? s = some c → b.component? c = some k → ∃ text, k.kind = .diagnostic text)
    (unheard : b.Unheard s) (error : SessionError) : (calls.report s error).Returns b := by
  by_cases on : (b.session s).config.renderDiagnostics = true ∧ ¬ (b.session s).isClosed = true
  · cases hshown : b.shownIn? s with
    | some c =>
        have hshow := returns_showText calls (fun k => builtIn c k hshown) (fun k => unheard c k hshown) error.message
        refine Run.Returns.read ?_
        rw [if_pos on]
        refine Run.Returns.read ?_
        rw [hshown]
        exact hshow.bind fun _ => Run.returns_pure _ _
    | none =>
        obtain ⟨d, hd, -⟩ := FailureView.definition_viewType
        have compiled : (calls.viewOf (.diagnostic error.message)).definition.1 = .ok d := hd
        cases henroll : ((b.enter s false).2.enroll s (.diagnostic error.message) d).1 with
        | error e =>
            exact (does_report_error calls on error hshown (does_create_error calls compiled henroll)).returns
        | ok c =>
            obtain ⟨-, hcreate, -⟩ := does_create calls compiled henroll
            exact (does_report_new calls on error hshown hcreate).returns
  · exact (does_report_off calls on error).returns

/-- What a session runs comes to an end, whether it fails or not, if it does not call too deep and nobody listens to
the component in which the session shows failures. -/
theorem returns_run {body : Run Code Store (Except Failure Json)}
    (bounded : body.ending (b.enter s false).2 ≠ .exhausted)
    (builtIn : ∀ c k, (body.last (b.enter s false).2).shownIn? s = some c →
      (body.last (b.enter s false).2).component? c = some k → ∃ text, k.kind = .diagnostic text)
    (unheard : (body.last (b.enter s false).2).Unheard s) : (calls.run s body).Returns b := by
  refine Run.Returns.inside ?_
  obtain ⟨outcome, hcaught⟩ := Run.does_catchPanic bounded
  refine hcaught.returns_bind ?_
  rw [← Run.finish_eq_play]
  match outcome with
  | .ok (.ok v) => exact Run.returns_pure _ _
  | .ok (.error e) => exact (returns_report calls builtIn unheard _).bind fun _ => Run.returns_pure _ _
  | .error p => exact (returns_report calls builtIn unheard _).bind fun _ => Run.returns_pure _ _

end Callbacks

/-- A session shows failures in components of the built-in kind. -/
theorem Backend.builtIn_play (calls : Callbacks Code (Prog Code Store)) (leave : Store → Store → Store) (fuel : Nat)
    (program : Prog Code Store α) (store : Store) {pre : List (Act Code Store)} {s : SessionId} {c : ComponentId}
    (point : pre <+: program.course calls leave fuel store)
    (shown : (((init store).play pre).session s).diagnostic = some c) :
    ∃ k text, ((init store).play pre).component? c = some k ∧ k.kind = .diagnostic text := by
  refine play_induction (I := fun _ b => ∀ c, (b.session s).diagnostic = some c →
    ∃ k text, b.component? c = some k ∧ k.kind = .diagnostic text) (fun c hc => ?_)
      (fun mid a hact h c hc => ?_) point c shown
  · cases hc
  · have coherent := coherent_play store mid
    by_cases hshow : ∃ c₀, a = .showFailuresIn s c₀
    · obtain ⟨c₀, rfl⟩ := hshow
      obtain ⟨-, ⟨k, hk, hshowing⟩, -⟩ :=
        presents_execute calls leave fuel program _ (coherent_init store) mid s c₀ hact
      have hthere : ((init store).play mid).hasSession s = true := hshowing.session ▸ coherent.home hk
      rw [Act.apply, showFailuresIn, session_modifySession, if_pos ⟨rfl, hthere⟩] at hc
      obtain rfl : c₀ = c := Option.some.inj hc
      obtain ⟨text, hkind⟩ := hshowing.kind
      exact ⟨k, text, hk, hkind⟩
    · have hne : a ≠ .close s := by
        rintro rfl
        rw [Act.apply, session_close] at hc
        split at hc
        · cases hc
        · next hnot =>
          rw [session_of_not_hasSession (by simpa using hnot)] at hc
          cases hc
      rw [diagnostic_apply coherent hne fun c heq => hshow ⟨c, heq⟩] at hc
      obtain ⟨k, text, hk, hkind⟩ := h c hc
      obtain ⟨k', hk', hkind', -⟩ := component?_effect coherent (effect_apply _ a) hk
      exact ⟨k', text, hk', hkind'.trans hkind⟩

end ViewSync
