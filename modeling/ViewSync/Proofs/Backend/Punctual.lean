import ViewSync.Proofs.Backend.Clock

/-!
# ViewSync.Proofs.Backend.Punctual

Timers that are worked off on time. The acts are those of programs that only use timers: tasks set timers and
take them away, and the program also moves the clock.

* `Timed` — the clock at a moment: fired and waiting timers are in order, and only tasks wait;
* `Punctual` — the acts: every moment is such, and behind each act that fires a timer comes its task;
* `Backend.Waits`, `Punctual.mem_pending_iff` — the timers of the clock are those that were set, not taken away
  since then, and have not fired.
-/

namespace ViewSync

variable {Code Store : Type}

namespace Act

/-- Acts that leave the clock where it is: they set timers for certain tasks, and take timers away. -/
def InTask (smaller : Code → Prop) : Act Code Store → Prop
  | .keep _ | .note _ | .cancel _ => True
  | .schedule _ (.task code) => smaller code
  | _ => False

/-- Acts of programs that only use timers. -/
def Timing : Act Code Store → Prop
  | .takeDue _ | .reach _ => True
  | a => a.InTask fun _ => True

variable {smaller : Code → Prop} {a : Act Code Store}

theorem InTask.timing (h : a.InTask smaller) : a.Timing := by
  unfold InTask at h
  split at h <;> trivial

end Act

/-! ## moments -/

namespace Backend

/-- The clock is in order, given the timers that fired, and only tasks wait. -/
structure Timed (past : List (Timer (Job Code))) (b : Backend Code Store) : Prop where
  orderly : b.clock.Orderly past
  tasks : ∀ t ∈ b.clock.pending, ∃ code, t.job = .task code

variable {b : Backend Code Store} {past : List (Timer (Job Code))} {smaller : Code → Prop}
  {a : Act Code Store}

theorem timed_init (store : Store) : Timed [] (init store : Backend Code Store) :=
  ⟨Clock.orderly_init, fun _ ht => absurd ht List.not_mem_nil⟩

/-- An act of a task fires nothing and leaves the clock where it is. -/
theorem Timed.inTask (h : Timed past b) (task : a.InTask smaller) :
    Timed past (a.apply b) ∧ (a.apply b).clock.now = b.clock.now ∧ a.fires? b = none := by
  cases a with
  | keep store => exact ⟨⟨h.orderly, h.tasks⟩, rfl, rfl⟩
  | note entry => exact ⟨⟨h.orderly, h.tasks⟩, rfl, rfl⟩
  | cancel id =>
      exact ⟨⟨h.orderly.cancel id, fun t ht => h.tasks t (Clock.mem_cancel.1 ht).1⟩, rfl, rfl⟩
  | schedule delay job =>
      cases job with
      | task code =>
          refine ⟨⟨h.orderly.schedule delay _, fun t ht => ?_⟩, rfl, rfl⟩
          obtain rfl | ht := Clock.mem_schedule.1 ht
          · exact ⟨code, rfl⟩
          · exact h.tasks t ht
      | debounced d => exact absurd task id
      | tick p => exact absurd task id
  | _ => exact absurd task id

theorem Timed.takeDue (h : Timed past b) {target : Nat} {t : Timer (Job Code)} {clock : Clock (Job Code)}
    (due : b.clock.takeDue? target = some (t, clock)) :
    Timed (past ++ [t]) ((Act.takeDue target).apply b) := by
  obtain ⟨-, hpending, -⟩ := Clock.takeDue?_eq_some due
  rw [apply_takeDue due]
  refine ⟨h.orderly.takeDue due, fun t' ht' => h.tasks t' ?_⟩
  rw [hpending]
  exact List.mem_cons_of_mem _ ht'

theorem Timed.inTask_play (h : Timed past b) {acts : List (Act Code Store)}
    (task : ∀ a ∈ acts, a.InTask smaller) :
    Timed past (b.play acts) ∧ (b.play acts).clock.now = b.clock.now ∧ b.fired acts = [] := by
  induction acts generalizing b with
  | nil => exact ⟨h, rfl, rfl⟩
  | cons a acts ih =>
      obtain ⟨htask, hrest⟩ := List.forall_mem_cons.1 task
      obtain ⟨htimed, hnow, hfires⟩ := h.inTask htask
      obtain ⟨hlast, hlastNow, hfired⟩ := ih htimed hrest
      refine ⟨hlast, hlastNow.trans hnow, ?_⟩
      rw [fired, hfires, hfired]
      rfl

end Backend

/-! ## acts on time -/

open Backend

/-- Timers are worked off on time. At every moment fired and waiting timers are in order; and behind each act
that fires a timer comes its task, all of it while the clock shows when the timer was due. -/
structure Punctual (task : Code → Backend Code Store → List (Act Code Store) → Prop)
    (past : List (Timer (Job Code))) (b : Backend Code Store) (acts : List (Act Code Store)) : Prop where
  timed : ∀ pre, pre <+: acts → Timed (past ++ b.fired pre) (b.play pre)
  timing : ∀ a ∈ acts, a.Timing
  runs : ∀ pre target t, pre ++ [.takeDue target] <+: acts →
    (Act.takeDue target).fires? (b.play pre) = some t →
      ∃ code inner, t.job = .task code ∧ task code (b.play (pre ++ [.takeDue target])) inner ∧
        pre ++ .takeDue target :: inner <+: acts ∧
        ∀ mid, mid <+: inner → (b.play (pre ++ .takeDue target :: mid)).clock.now = t.due

namespace Punctual

variable {task : Code → Backend Code Store → List (Act Code Store) → Prop}
  {past : List (Timer (Job Code))} {b : Backend Code Store} {acts more : List (Act Code Store)}

/-- Acts on time, and then more of them. -/
theorem append (h : Punctual task past b acts)
    (hmore : Punctual task (past ++ b.fired acts) (b.play acts) more) :
    Punctual task past b (acts ++ more) where
  timed pre hpre := by
    obtain hpre | ⟨pre, rfl, hmid⟩ := prefix_append_cases hpre
    · exact h.timed pre hpre
    · simpa using hmore.timed pre hmid
  timing a ha := by
    obtain ha | ha := List.mem_append.1 ha
    · exact h.timing a ha
    · exact hmore.timing a ha
  runs pre target t hpre hfires := by
    obtain hpre | ⟨pre, rfl, hmid⟩ := prefix_concat_append hpre
    · obtain ⟨code, inner, hjob, htask, hinner, hnow⟩ := h.runs pre target t hpre hfires
      exact ⟨code, inner, hjob, htask, hinner.trans (List.prefix_append _ _), hnow⟩
    · rw [play_append] at hfires
      obtain ⟨code, inner, hjob, htask, hinner, hnow⟩ := hmore.runs pre target t hmid hfires
      refine ⟨code, inner, hjob, by simpa using htask, ?_, by simpa using hnow⟩
      rw [List.append_assoc, List.prefix_append_right_inj]
      exact hinner

/-- Acts of a task. -/
theorem of_inTask {smaller : Code → Prop} (timed : Timed past b) (acts_in : ∀ a ∈ acts, a.InTask smaller) :
    Punctual task past b acts where
  timed pre hpre := by
    obtain ⟨htimed, -, hfired⟩ := timed.inTask_play fun a ha => acts_in a (hpre.subset ha)
    rwa [hfired, List.append_nil]
  timing a ha := (acts_in a ha).timing
  runs pre target t hpre _ := absurd (acts_in _ (hpre.subset (List.mem_append_right _ (.head _)))) id

theorem nil (timed : Timed past b) : Punctual task past b [] where
  timed pre hpre := by simpa [List.prefix_nil.1 hpre] using timed
  timing _ ha := absurd ha List.not_mem_nil
  runs pre target t hpre _ := by simp at hpre

/-- A timer fires, and its task runs. -/
theorem of_takeDue {smaller : Code → Prop} {target : Nat} {t : Timer (Job Code)} {clock : Clock (Job Code)}
    {code : Code} {inner : List (Act Code Store)} (timed : Timed past b)
    (due : b.clock.takeDue? target = some (t, clock)) (job : t.job = .task code)
    (runs : task code ((Act.takeDue target).apply b) inner) (inner_in : ∀ a ∈ inner, a.InTask smaller) :
    Punctual task past b (.takeDue target :: inner) := by
  have hfires : (Act.takeDue target).fires? b = some t := by simp [Act.fires?, due]
  have htimed := timed.takeDue due
  have hnow : ((Act.takeDue target).apply b).clock.now = t.due := by
    rw [apply_takeDue due, (Clock.takeDue?_eq_some due).2.2]
  have hinner : Punctual task (past ++ [t]) ((Act.takeDue target).apply b) inner := .of_inTask htimed inner_in
  refine ⟨fun pre hpre => ?_, fun a ha => ?_, fun pre target' t' hpre hfires' => ?_⟩
  · obtain rfl | ⟨pre, rfl, hmid⟩ := List.prefix_cons_iff.1 hpre
    · simpa using timed
    · rw [fired_takeDue due, ← List.singleton_append, ← List.append_assoc]
      exact hinner.timed pre hmid
  · obtain rfl | ha := List.mem_cons.1 ha
    · trivial
    · exact hinner.timing a ha
  · cases pre with
    | nil =>
        obtain ⟨hact, -⟩ := List.cons_prefix_cons.1 hpre
        cases hact
        obtain rfl : t = t' := Option.some.inj (hfires.symm.trans hfires')
        refine ⟨code, inner, job, runs, List.prefix_refl _, fun mid hmid => ?_⟩
        exact (htimed.inTask_play fun a ha => inner_in a (hmid.subset ha)).2.1.trans hnow
    | cons a pre =>
        obtain ⟨-, hpre⟩ := List.cons_prefix_cons.1 hpre
        exact absurd (inner_in _ (hpre.subset (List.mem_append_right _ (.head _)))) id

/-- Nothing is due any more, and the clock moves on. -/
theorem of_reach {target : Nat} (timed : Timed past b) (due : b.clock.takeDue? target = none)
    (later : b.clock.now ≤ target) : Punctual task past b [.takeDue target, .reach target] := by
  have hfires : (Act.takeDue target).fires? b = none := by simp [Act.fires?, due]
  have htimed : Timed past ((Act.takeDue target).apply b) := by rwa [apply_takeDue_of_none due]
  have hreach : Timed past ((Act.reach target).apply b) :=
    ⟨timed.orderly.reach due fun t ht => Nat.le_trans (timed.orderly.past t ht) later, timed.tasks⟩
  refine ⟨fun pre hpre => ?_, fun a ha => ?_, fun pre target' t hpre hfires' => ?_⟩
  · obtain rfl | ⟨pre, rfl, hmid⟩ := List.prefix_cons_iff.1 hpre
    · simpa using timed
    obtain rfl | ⟨pre, rfl, hlast⟩ := List.prefix_cons_iff.1 hmid
    · simpa [fired, hfires] using htimed
    · obtain rfl := List.prefix_nil.1 hlast
      simpa [fired, apply_takeDue_of_none due, Act.fires?, due] using hreach
  · obtain rfl | ha := List.mem_cons.1 ha
    · trivial
    · obtain rfl := List.mem_singleton.1 ha
      trivial
  · cases pre with
    | nil =>
        obtain ⟨hact, -⟩ := List.cons_prefix_cons.1 hpre
        cases hact
        simp [hfires] at hfires'
    | cons a pre =>
        obtain ⟨-, hpre⟩ := List.cons_prefix_cons.1 hpre
        have hmem := hpre.subset (List.mem_append_right pre (.head _))
        simp at hmem

end Punctual

/-! ## each timer -/

namespace Backend

/-- A timer was set by one of some acts, was not taken away since then, and has not fired. -/
def Waits (b : Backend Code Store) (t : Timer (Job Code)) (acts : List (Act Code Store)) : Prop :=
  t ∉ b.fired acts ∧ ∃ before after delay, acts = before ++ .schedule delay t.job :: after ∧
    t = ⟨(b.play before).clock.now + delay, (b.play before).clock.nextId, t.job⟩ ∧ .cancel t.id ∉ after

variable {b : Backend Code Store} {acts : List (Act Code Store)} {t : Timer (Job Code)}

theorem mem_fired_iff : t ∈ b.fired acts ↔
    ∃ q target, q ++ [.takeDue target] <+: acts ∧ (Act.takeDue target).fires? (b.play q) = some t := by
  induction acts using List.reverseRecOn with
  | nil => simp
  | append_singleton acts a ih =>
      rw [fired_append, List.mem_append, ih]
      constructor
      · rintro (⟨q, target, hq, hfires⟩ | hlast)
        · exact ⟨q, target, hq.trans (List.prefix_append _ _), hfires⟩
        · have hfires : a.fires? (b.play acts) = some t := by simpa [fired] using hlast
          cases a with
          | takeDue target => exact ⟨acts, target, List.prefix_refl _, hfires⟩
          | _ => cases hfires
      · rintro ⟨q, target, hq, hfires⟩
        obtain heq | hq := List.prefix_concat_iff.1 hq
        · obtain ⟨rfl, hact⟩ := List.append_inj' heq rfl
          cases hact
          exact .inr (by simp [fired, hfires])
        · exact .inl ⟨q, target, hq, hfires⟩

/-- A timer that waits behind one more act was set by it, or waited before and was left. -/
theorem waits_concat {a : Act Code Store} : b.Waits t (acts ++ [a]) ↔
    (t ∉ b.fired acts ∧ ∃ delay, a = .schedule delay t.job ∧
        t = ⟨(b.play acts).clock.now + delay, (b.play acts).clock.nextId, t.job⟩) ∨
      b.Waits t acts ∧ a ≠ .cancel t.id ∧ a.fires? (b.play acts) ≠ some t := by
  have hfired : t ∈ b.fired (acts ++ [a]) ↔ t ∈ b.fired acts ∨ a.fires? (b.play acts) = some t := by
    simp [fired]
  unfold Waits
  rw [hfired, not_or]
  constructor
  · rintro ⟨⟨hunfired, hleft⟩, before, after, delay, hacts, ht, hcancel⟩
    obtain rfl | ⟨after, a', rfl⟩ := List.eq_nil_or_concat' after
    · obtain ⟨rfl, rfl⟩ := List.append_inj' hacts rfl |>.imp_right List.singleton_inj.1
      exact .inl ⟨hunfired, delay, rfl, ht⟩
    · rw [← List.cons_append, ← List.append_assoc] at hacts
      obtain ⟨rfl, rfl⟩ := List.append_inj' hacts rfl |>.imp_right List.singleton_inj.1
      rw [List.mem_append, List.mem_singleton, not_or] at hcancel
      exact .inr ⟨⟨hunfired, before, after, delay, rfl, ht, hcancel.1⟩, fun h => hcancel.2 h.symm, hleft⟩
  · rintro (⟨hunfired, delay, rfl, ht⟩ | ⟨⟨hunfired, before, after, delay, rfl, ht, hcancel⟩, hgoes, hleft⟩)
    · exact ⟨⟨hunfired, by simp [Act.fires?]⟩, acts, [], delay, rfl, ht, List.not_mem_nil⟩
    · refine ⟨⟨hunfired, hleft⟩, before, after ++ [a], delay, by simp, ht, ?_⟩
      rw [List.mem_append, List.mem_singleton, not_or]
      exact ⟨hcancel, fun h => hgoes h.symm⟩

/-- What one act makes of the timers of the clock. -/
theorem mem_pending_apply {past : List (Timer (Job Code))} {a : Act Code Store} (timed : Timed past b)
    (timing : a.Timing) : t ∈ (a.apply b).clock.pending ↔
      (t ∉ past ∧ ∃ delay, a = .schedule delay t.job ∧ t = ⟨b.clock.now + delay, b.clock.nextId, t.job⟩) ∨
        t ∈ b.clock.pending ∧ a ≠ .cancel t.id ∧ a.fires? b ≠ some t := by
  cases a with
  | keep store => simp [Act.apply, Act.fires?]
  | note entry => simp [Act.apply, Act.fires?, record]
  | reach target => simp [Act.apply, Act.fires?, reach]
  | cancel id =>
      have hmem : t ∈ ((Act.cancel id).apply b).clock.pending ↔ _ := Clock.mem_cancel
      rw [hmem]
      simp [Act.fires?, eq_comm]
  | schedule delay job =>
      have hmem : t ∈ ((Act.schedule delay job).apply b).clock.pending ↔ _ := Clock.mem_schedule
      have hnew : (⟨b.clock.now + delay, b.clock.nextId, job⟩ : Timer (Job Code)) ∉ past := fun hpast =>
        Nat.lt_irrefl _ (timed.orderly.numbered _ (List.mem_append_left _ hpast))
      rw [hmem]
      constructor
      · rintro (rfl | hpending)
        · exact .inl ⟨hnew, delay, rfl, rfl⟩
        · exact .inr ⟨hpending, by simp, by simp [Act.fires?]⟩
      · rintro (⟨-, delay', hact, ht⟩ | ⟨hpending, -, -⟩)
        · obtain ⟨rfl, rfl⟩ := Act.schedule.inj hact
          exact .inl ht
        · exact .inr hpending
  | takeDue target =>
      cases hdue : b.clock.takeDue? target with
      | none => simp [apply_takeDue_of_none hdue, Act.fires?, hdue]
      | some taken =>
          obtain ⟨t', clock⟩ := taken
          obtain ⟨-, hpending, -⟩ := Clock.takeDue?_eq_some hdue
          have hnodup : (t' :: clock.pending).Nodup := hpending ▸ timed.orderly.forget.nodup.of_map _
          rw [apply_takeDue hdue, hpending]
          simp only [Act.fires?, hdue, Option.map_some, List.mem_cons]
          constructor
          · intro ht
            refine .inr ⟨.inr ht, by simp, fun heq => ?_⟩
            exact (List.nodup_cons.1 hnodup).1 (Option.some.inj heq ▸ ht)
          · rintro (⟨-, delay, hact, -⟩ | ⟨rfl | ht, -, hne⟩)
            · cases hact
            · exact absurd rfl hne
            · exact ht
  | _ => exact absurd timing id

/-- The timers of the clock are those that wait. -/
theorem mem_pending_iff {store : Store}
    (timed : ∀ pre, pre <+: acts → Timed ((init store).fired pre) ((init store).play pre))
    (timing : ∀ a ∈ acts, a.Timing) :
    t ∈ ((init store).play acts).clock.pending ↔ (init store).Waits t acts := by
  induction acts using List.reverseRecOn with
  | nil =>
      refine ⟨fun h => absurd h List.not_mem_nil, ?_⟩
      rintro ⟨-, before, after, delay, hacts, -⟩
      simp at hacts
  | append_singleton acts a ih =>
      obtain ⟨hacts, ha⟩ := List.forall_mem_append.1 timing
      have hpending := ih (fun pre hpre => timed pre (hpre.trans (List.prefix_append _ _))) hacts
      rw [waits_concat, ← hpending, play_append, play_cons, play_nil,
        mem_pending_apply (timed acts (List.prefix_append _ _)) (List.forall_mem_singleton.1 ha)]

/-- Numbers of timers are given out once. -/
theorem nextId_play (timing : ∀ a ∈ acts, a.Timing) : b.clock.nextId ≤ (b.play acts).clock.nextId := by
  induction acts generalizing b with
  | nil => exact Nat.le_refl _
  | cons a acts ih =>
      obtain ⟨ha, hrest⟩ := List.forall_mem_cons.1 timing
      refine Nat.le_trans ?_ (ih hrest)
      cases a with
      | schedule => exact Nat.le_succ _
      | takeDue target =>
          cases hdue : b.clock.takeDue? target with
          | none => exact Nat.le_of_eq (by rw [apply_takeDue_of_none hdue])
          | some taken => exact Nat.le_of_eq (by rw [apply_takeDue hdue, (Clock.takeDue?_eq_some hdue).2.2])
      | keep | note | reach | cancel => exact Nat.le_refl _
      | _ => exact absurd ha id

/-- The number of a timer says where it was set. -/
theorem eq_of_nextId {pre pre' : List (Act Code Store)} {delay delay' : Nat} {job job' : Job Code}
    (timing : ∀ a ∈ acts, a.Timing) (hpre : pre ++ [.schedule delay job] <+: acts)
    (hpre' : pre' ++ [.schedule delay' job'] <+: acts)
    (same : (b.play pre).clock.nextId = (b.play pre').clock.nextId) : pre = pre' := by
  have hlt {p q : List (Act Code Store)} {delay : Nat} {job : Job Code}
      (hp : p ++ [.schedule delay job] <+: q) (hq : q <+: acts) :
      (b.play p).clock.nextId < (b.play q).clock.nextId := by
    obtain ⟨rest, rfl⟩ := hp
    rw [play_append, play_append]
    refine Nat.lt_of_succ_le (nextId_play (b := (b.play p).play [.schedule delay job]) fun a ha => ?_)
    exact timing a (hq.subset (List.mem_append_right _ ha))
  obtain h | h := List.prefix_or_prefix_of_prefix hpre hpre'
  · obtain heq | hearlier := List.prefix_concat_iff.1 h
    · exact (List.append_inj' heq rfl).1
    · exact absurd same (Nat.ne_of_lt (hlt hearlier ((List.prefix_append _ _).trans hpre')))
  · obtain heq | hearlier := List.prefix_concat_iff.1 h
    · exact (List.append_inj' heq rfl).1.symm
    · exact absurd same (Nat.ne_of_gt (hlt hearlier ((List.prefix_append _ _).trans hpre)))

end Backend

section

variable {task : Code → Backend Code Store → List (Act Code Store) → Prop} {store : Store}
  {acts : List (Act Code Store)} (h : Punctual task [] (init store) acts)

include h

theorem Punctual.mem_pending_iff {q : List (Act Code Store)} (hq : q <+: acts) {t : Timer (Job Code)} :
    t ∈ ((init store).play q).clock.pending ↔ (init store).Waits t q :=
  Backend.mem_pending_iff (fun pre hpre => by simpa using h.timed pre (hpre.trans hq))
    fun a ha => h.timing a (hq.subset ha)

/-- A timer that fires waited until then, and was due. -/
theorem Punctual.waits_of_fires {q : List (Act Code Store)} {target : Nat} {t : Timer (Job Code)}
    (hq : q ++ [.takeDue target] <+: acts)
    (fires : (Act.takeDue target).fires? ((init store).play q) = some t) :
    (init store).Waits t q ∧ t.due ≤ target := by
  obtain ⟨⟨t', clock⟩, hdue, rfl⟩ := Option.map_eq_some_iff.1 fires
  obtain ⟨hle, hpending, -⟩ := Clock.takeDue?_eq_some hdue
  exact ⟨(h.mem_pending_iff ((List.prefix_append _ _).trans hq)).1 (hpending ▸ List.mem_cons_self), hle⟩

end

end ViewSync
