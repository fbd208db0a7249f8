import Mathlib.Data.List.Nodup
import Mathlib.Data.List.Perm.Basic
import ViewSync.Proofs.Backend.Course

/-!
# ViewSync.Proofs.Backend.Clock

The clock and its timers. The timers that fired and those that wait are one sequence, in which each new timer
is put behind those that are due no later; firing moves the boundary between the two parts.

* `Timer.Before` — the order of timers: when they are due, and then when they were set;
* `Clock.Orderly` — what holds of fired and waiting timers at every moment, kept by each change of the clock;
* `Act.fires?`, `Backend.fired` — the timers that acts fire.
-/

namespace ViewSync

variable {J Code Store : Type}

/-- A timer is due before another one, or is due with it and was set first. -/
def Timer.Before (t t' : Timer J) : Prop :=
  t.due < t'.due ∨ t.due = t'.due ∧ t.id < t'.id

theorem Timer.Before.trans {t t' t'' : Timer J} (h : t.Before t') (h' : t'.Before t'') :
    t.Before t'' := by
  obtain h | ⟨hdue, hid⟩ := h
  · obtain h' | ⟨hdue', -⟩ := h'
    · exact .inl (Nat.lt_trans h h')
    · exact .inl (hdue' ▸ h)
  · obtain h' | ⟨hdue', hid'⟩ := h'
    · exact .inl (hdue ▸ h')
    · exact .inr ⟨hdue.trans hdue', Nat.lt_trans hid hid'⟩

theorem Timer.Before.le {t t' : Timer J} (h : t.Before t') : t.due ≤ t'.due := by
  obtain h | ⟨h, -⟩ := h
  · exact Nat.le_of_lt h
  · exact Nat.le_of_eq h

/-- A timer that is due no later and was set first comes first. -/
theorem Timer.before_of_le {t t' : Timer J} (due : t.due ≤ t'.due) (id : t.id < t'.id) : t.Before t' :=
  (Nat.lt_or_eq_of_le due).imp_right fun h => ⟨h, id⟩

namespace Clock

/-- The timers that fired and those that wait, in this order, are in the order of timers and have numbers of
their own that were all given out. No fired timer was due later than now, and no waiting one is overdue. -/
structure Orderly (fired : List (Timer J)) (clock : Clock J) : Prop where
  ordered : (fired ++ clock.pending).Pairwise Timer.Before
  nodup : ((fired ++ clock.pending).map (·.id)).Nodup
  numbered : ∀ t ∈ fired ++ clock.pending, t.id < clock.nextId
  past : ∀ t ∈ fired, t.due ≤ clock.now
  current : ∀ t ∈ clock.pending, clock.now ≤ t.due

variable {clock : Clock J} {fired : List (Timer J)}

theorem orderly_init : Orderly [] ({} : Clock J) :=
  ⟨.nil, .nil, fun _ h => absurd h List.not_mem_nil, fun _ h => absurd h List.not_mem_nil,
    fun _ h => absurd h List.not_mem_nil⟩

/-- What is known of the waiting timers alone. -/
theorem Orderly.forget (h : Orderly fired clock) : Orderly [] clock where
  ordered := (List.pairwise_append.1 h.ordered).2.1
  nodup := h.nodup.sublist ((List.sublist_append_right fired clock.pending).map _)
  numbered := fun t ht => h.numbered t (List.mem_append_right fired ht)
  past := fun _ ht => absurd ht List.not_mem_nil
  current := h.current

/-! ## setting a timer -/

theorem perm_place (timer : Timer J) (ts : List (Timer J)) : (place timer ts).Perm (timer :: ts) := by
  induction ts with
  | nil => exact .refl _
  | cons t ts ih =>
      unfold place
      split
      · exact (ih.cons t).trans (.swap timer t ts)
      · exact .refl _

theorem mem_place {timer t : Timer J} {ts : List (Timer J)} :
    t ∈ place timer ts ↔ t = timer ∨ t ∈ ts := by
  rw [(perm_place timer ts).mem_iff, List.mem_cons]

/-- Timers that a new one is not among are the same with it. -/
theorem filter_place {p : Timer J → Bool} {timer : Timer J} (h : p timer = false) (ts : List (Timer J)) :
    (place timer ts).filter p = ts.filter p := by
  induction ts with
  | nil => simp [place, h]
  | cons t ts ih =>
      unfold place
      split
      · rw [List.filter_cons, List.filter_cons, ih]
      · rw [List.filter_cons_of_neg (by simp [h])]

/-- Where there were no such timers, a new one is alone. -/
theorem filter_place_of_nil {p : Timer J → Bool} {timer : Timer J} (h : p timer = true) {ts : List (Timer J)}
    (none : ts.filter p = []) : (place timer ts).filter p = [timer] := by
  have hperm := (perm_place timer ts).filter p
  rw [List.filter_cons, if_pos h, none] at hperm
  exact List.perm_singleton.1 hperm

/-- A timer with a new number goes behind those that are due no later. -/
theorem pairwise_place {timer : Timer J} {ts : List (Timer J)} (ordered : ts.Pairwise Timer.Before)
    (new : ∀ t ∈ ts, t.id < timer.id) : (place timer ts).Pairwise Timer.Before := by
  induction ts with
  | nil => exact List.pairwise_singleton _ _
  | cons t ts ih =>
      obtain ⟨hfirst, hrest⟩ := List.pairwise_cons.1 ordered
      unfold place
      split
      · next hdue =>
        refine List.pairwise_cons.2 ⟨fun t' ht' => ?_, ih hrest fun t' ht' => ?_⟩
        · obtain rfl | ht' := mem_place.1 ht'
          · exact Timer.before_of_le hdue (new t List.mem_cons_self)
          · exact hfirst t' ht'
        · exact new t' (List.mem_cons_of_mem _ ht')
      · next hdue =>
        have hbefore : timer.Before t := .inl (Nat.lt_of_not_le hdue)
        refine List.pairwise_cons.2 ⟨fun t' ht' => ?_, ordered⟩
        obtain rfl | ht' := List.mem_cons.1 ht'
        · exact hbefore
        · exact hbefore.trans (hfirst t' ht')

theorem mem_schedule {delay : Nat} {job : J} {t : Timer J} :
    t ∈ (clock.schedule delay job).2.pending ↔
      t = ⟨clock.now + delay, clock.nextId, job⟩ ∨ t ∈ clock.pending :=
  mem_place

theorem Orderly.schedule (h : Orderly fired clock) (delay : Nat) (job : J) :
    Orderly fired (clock.schedule delay job).2 := by
  have hpending := h.forget
  have hperm : (fired ++ (clock.schedule delay job).2.pending).Perm
      (⟨clock.now + delay, clock.nextId, job⟩ :: (fired ++ clock.pending)) :=
    ((perm_place _ _).append_left fired).trans List.perm_middle
  refine ⟨List.pairwise_append.2 ⟨(List.pairwise_append.1 h.ordered).1, ?_, fun t ht t' ht' => ?_⟩,
    ?_, fun t ht => ?_, h.past, fun t ht => ?_⟩
  · exact pairwise_place hpending.ordered fun t ht => hpending.numbered t ht
  · obtain rfl | ht' := mem_schedule.1 ht'
    · exact Timer.before_of_le (Nat.le_add_right_of_le (h.past t ht))
        (h.numbered t (List.mem_append_left _ ht))
    · exact (List.pairwise_append.1 h.ordered).2.2 t ht t' ht'
  · rw [(hperm.map _).nodup_iff, List.map_cons, List.nodup_cons]
    refine ⟨fun hmem => ?_, h.nodup⟩
    obtain ⟨t, ht, hid⟩ := List.mem_map.1 hmem
    exact Nat.lt_irrefl _ (hid ▸ h.numbered t ht)
  · obtain rfl | ht := List.mem_cons.1 (hperm.mem_iff.1 ht)
    · exact Nat.lt_succ_self _
    · exact Nat.lt_succ_of_lt (h.numbered t ht)
  · obtain rfl | ht := mem_schedule.1 ht
    · exact Nat.le_add_right _ _
    · exact h.current t ht

/-! ## taking a timer away -/

theorem mem_cancel {id : TimerId} {t : Timer J} :
    t ∈ (clock.cancel id).pending ↔ t ∈ clock.pending ∧ t.id ≠ id := by
  simp [cancel]

theorem Orderly.cancel (h : Orderly fired clock) (id : TimerId) : Orderly fired (clock.cancel id) := by
  have hsub : (fired ++ (clock.cancel id).pending).Sublist (fired ++ clock.pending) :=
    (List.Sublist.refl fired).append List.filter_sublist
  exact ⟨h.ordered.sublist hsub, h.nodup.sublist (hsub.map _), fun t ht => h.numbered t (hsub.subset ht),
    h.past, fun t ht => h.current t (mem_cancel.1 ht).1⟩

theorem isPending_iff {id : TimerId} : clock.isPending id = true ↔ ∃ t ∈ clock.pending, t.id = id := by
  simp [isPending]

/-! ## firing a timer -/

/-- The timer that fires is the first one of those that wait. -/
theorem takeDue?_eq_some {target : Nat} {t : Timer J} {clock' : Clock J}
    (h : clock.takeDue? target = some (t, clock')) :
    t.due ≤ target ∧ clock.pending = t :: clock'.pending ∧
      clock' = { clock with now := t.due, pending := clock'.pending } := by
  unfold takeDue? at h
  cases hpending : clock.pending with
  | nil => simp [hpending] at h
  | cons timer rest =>
      simp only [hpending, Option.ite_none_right_eq_some, Option.some.injEq, Prod.mk.injEq] at h
      obtain ⟨hdue, rfl, rfl⟩ := h
      exact ⟨hdue, rfl, rfl⟩

/-- No timer fires just when none is due. -/
theorem Orderly.takeDue?_eq_none_iff (h : Orderly fired clock) {target : Nat} :
    clock.takeDue? target = none ↔ ∀ t ∈ clock.pending, target < t.due := by
  have hordered := h.forget.ordered
  unfold takeDue?
  cases hpending : clock.pending with
  | nil => simp
  | cons timer rest =>
      rw [List.nil_append, hpending] at hordered
      simp only [ite_eq_right_iff, reduceCtorEq, imp_false, Nat.not_le, List.forall_mem_cons]
      exact ⟨fun hdue => ⟨hdue, fun t ht =>
        Nat.lt_of_lt_of_le hdue ((List.pairwise_cons.1 hordered).1 t ht).le⟩, And.left⟩

/-- The timer that fires moves from those that wait to those that fired, and the clock shows its time. -/
theorem Orderly.takeDue (h : Orderly fired clock) {target : Nat} {t : Timer J} {clock' : Clock J}
    (due : clock.takeDue? target = some (t, clock')) : Orderly (fired ++ [t]) clock' := by
  obtain ⟨-, hpending, hclock⟩ := takeDue?_eq_some due
  have hsame : fired ++ [t] ++ clock'.pending = fired ++ clock.pending := by simp [hpending]
  have hnow : clock'.now = t.due := by rw [hclock]
  have hnextId : clock'.nextId = clock.nextId := by rw [hclock]
  have hmem : t ∈ clock.pending := hpending ▸ List.mem_cons_self
  have hfirst := h.forget.ordered
  rw [List.nil_append, hpending] at hfirst
  refine ⟨hsame ▸ h.ordered, hsame ▸ h.nodup, fun t' ht' => hnextId ▸ h.numbered t' (hsame ▸ ht'),
    fun t' ht' => ?_, fun t' ht' => ?_⟩
  · rw [hnow]
    obtain ht' | ht' := List.mem_append.1 ht'
    · exact Nat.le_trans (h.past t' ht') (h.current t hmem)
    · exact Nat.le_of_eq (by rw [List.mem_singleton.1 ht'])
  · rw [hnow]
    exact ((List.pairwise_cons.1 hfirst).1 t' ht').le

/-- The clock moves on to a time before which nothing is due any more. -/
theorem Orderly.reach (h : Orderly fired clock) {target : Nat} (none_due : clock.takeDue? target = none)
    (later : ∀ t ∈ fired, t.due ≤ target) : Orderly fired { clock with now := target } :=
  ⟨h.ordered, h.nodup, h.numbered, later,
    fun t ht => Nat.le_of_lt (h.takeDue?_eq_none_iff.1 none_due t ht)⟩

end Clock

/-! ## timers that fire -/

/-- The timer that an act fires. -/
def Act.fires? (b : Backend Code Store) : Act Code Store → Option (Timer (Job Code))
  | .takeDue target => (b.clock.takeDue? target).map (·.1)
  | _ => none

namespace Backend

/-- The timers that acts fire, in order. -/
def fired : Backend Code Store → List (Act Code Store) → List (Timer (Job Code))
  | _, [] => []
  | b, a :: rest => (a.fires? b).toList ++ (a.apply b).fired rest

variable {b : Backend Code Store}

@[simp] theorem fired_nil (b : Backend Code Store) : b.fired [] = [] := rfl

@[simp] theorem fired_append (b : Backend Code Store) (acts more : List (Act Code Store)) :
    b.fired (acts ++ more) = b.fired acts ++ (b.play acts).fired more := by
  induction acts generalizing b with
  | nil => rfl
  | cons a acts ih => simp [fired, ih]

theorem fired_subset {pre acts : List (Act Code Store)} (h : pre <+: acts) : b.fired pre ⊆ b.fired acts := by
  obtain ⟨more, rfl⟩ := h
  rw [fired_append]
  exact List.subset_append_left _ _

/-- The state behind the act that fires a timer. -/
theorem apply_takeDue {target : Nat} {t : Timer (Job Code)} {clock : Clock (Job Code)}
    (due : b.clock.takeDue? target = some (t, clock)) :
    (Act.takeDue target).apply b = { b with clock := clock } := by
  simp [Act.apply, takeDue, due]

theorem fired_takeDue {target : Nat} {t : Timer (Job Code)} {clock : Clock (Job Code)}
    (due : b.clock.takeDue? target = some (t, clock)) (acts : List (Act Code Store)) :
    b.fired (.takeDue target :: acts) = t :: ((Act.takeDue target).apply b).fired acts := by
  simp [fired, Act.fires?, due]

theorem apply_takeDue_of_none {target : Nat} (due : b.clock.takeDue? target = none) :
    (Act.takeDue target).apply b = b := by
  simp [Act.apply, takeDue, due]

end Backend

end ViewSync
