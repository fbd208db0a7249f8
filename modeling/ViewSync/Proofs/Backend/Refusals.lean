import ViewSync.Proofs.Backend.Batches

/-!
# ViewSync.Proofs.Backend.Refusals

An update that is refused changes nothing. It is refused by the adjustment of the component, or when its
changes are to be stored; either way the state is the one that the adjustment left, and no listener is called.

* `Callbacks.Refuses` — where an update is refused;
* `Callbacks.refuses_of_ending`, `Callbacks.Refuses.does_update` — an update fails just when it is refused,
  and the rest of the update does not run then;
* `rejected_update_changes_nothing` — the component, its batch and its listeners are as they were, and nothing
  is sent.
-/

namespace ViewSync

variable {Code Store α β : Type}

/-! ## acts without components -/

/-- Whether an act is an operation on components: on one of them, or one that creates a component or ends those
of a session. -/
def Act.isOfComponents : Act Code Store → Bool
  | .enroll .. | .close _ => true
  | a => a.on?.isSome

namespace Backend

variable {b : Backend Code Store} {a : Act Code Store} {acts : List (Act Code Store)}

theorem component?_apply_of_not_isOfComponents (h : a.isOfComponents = false) (c : ComponentId) :
    (a.apply b).component? c = b.component? c := by
  cases a with
  | openSession config channel => rfl
  | send s m => exact (b.sameParts_send s m).components c
  | enroll | close | activate | abandon | destroy | change | openBatch | beginBatch | commit | drop | listen
  | unlisten => cases h
  | _ => exact (still_apply rfl b).components c

theorem sentTo_apply_of_not_isOfComponents (h : a.isOfComponents = false) {s : SessionId}
    (unsent : ∀ m, a ≠ .send s m) : (a.apply b).sentTo s = b.sentTo s := by
  cases a with
  | openSession config channel => rfl
  | send s' m =>
      have hne : s' ≠ s := fun heq => unsent m (heq ▸ rfl)
      rw [Act.apply, sentTo_send, if_neg fun hs => hne hs.1, List.append_nil]
  | enroll | close | activate | abandon | destroy | change | openBatch | beginBatch | commit | drop | listen
  | unlisten => cases h
  | _ => exact (still_apply rfl b).sent s

theorem component?_play_of_not_isOfComponents (h : ∀ a ∈ acts, a.isOfComponents = false) (c : ComponentId) :
    (b.play acts).component? c = b.component? c := by
  induction acts generalizing b with
  | nil => rfl
  | cons a acts ih =>
      obtain ⟨ha, hacts⟩ := List.forall_mem_cons.1 h
      exact (ih hacts).trans (component?_apply_of_not_isOfComponents ha c)

theorem sentTo_play_of_not_isOfComponents (h : ∀ a ∈ acts, a.isOfComponents = false) {s : SessionId}
    (unsent : ∀ m, .send s m ∉ acts) : (b.play acts).sentTo s = b.sentTo s := by
  induction acts generalizing b with
  | nil => rfl
  | cons a acts ih =>
      obtain ⟨ha, hacts⟩ := List.forall_mem_cons.1 h
      have hrest : ∀ m, .send s m ∉ acts := fun m hm => unsent m (List.mem_cons_of_mem _ hm)
      have hone : ∀ m, a ≠ .send s m := fun m heq => unsent m (heq ▸ List.mem_cons_self)
      exact (ih hacts hrest).trans (sentTo_apply_of_not_isOfComponents ha hone)

end Backend

/-! ## where updates are refused -/

/-- The reasons for which a component refuses an update. -/
inductive ComponentError.OfUpdate (c : ComponentId) : ComponentError → Prop
  | aborted (reason : String) : OfUpdate c (.aborted reason)
  | destroyed : OfUpdate c (.destroyed c)
  | batchOptionsMismatch : OfUpdate c (.batchOptionsMismatch c)
  | actionInBatch (key : String) : OfUpdate c (.actionInBatch key)
  | unresolved (e : ChangeError) : OfUpdate c (.ofChange c e)

theorem Component.ofUpdate_of_write {c : ComponentId} {k : Component Code} {changes : Fields}
    {options : UpdateOptions} {e : ComponentError} (h : k.write c changes options = .error e) :
    e.OfUpdate c := by
  unfold write at h
  split at h
  · cases h
    exact .destroyed
  · split at h
    · unfold buffer at h
      split at h
      · cases h
        exact .batchOptionsMismatch
      · split at h
        · cases h
          exact .actionInBatch _
        · cases h
    · split at h
      · cases h
        exact .unresolved _
      · cases h

namespace Backend

variable {b : Backend Code Store} {c : ComponentId} {changes : Fields} {options : UpdateOptions}
  {e : ComponentError}

theorem ofUpdate_of_change (h : b.change c changes options = .error e) : e.OfUpdate c := by
  unfold change at h
  split at h
  · cases h
    exact .destroyed
  · next k _ =>
    cases hwrite : k.write c changes options with
    | ok written => rw [hwrite] at h; cases h
    | error e' =>
        rw [hwrite] at h
        cases h
        exact Component.ofUpdate_of_write hwrite

/-- Changes that are refused are not made. -/
theorem apply_change_of_error (h : b.change c changes options = .error e) :
    (Act.change c changes options).apply b = b := by
  rw [Act.apply, h]
  rfl

end Backend

/-- A value of one operation after another is that of the second one, behind a value of the first. -/
theorem Run.value_of_bind {x : Run Code Store α} {f : α → Run Code Store β} {b : Backend Code Store} {v : β}
    (h : (x >>= f).ending b = .value v) :
    ∃ a, x.ending b = .value a ∧ (f a).ending (x.last b) = .value v := by
  have hfinish : (x >>= f).ending b = _ := congrArg Prod.fst (finish_andThen x _ b)
  rw [hfinish] at h
  cases hending : x.ending b with
  | value a => rw [hending] at h; exact ⟨a, rfl, h⟩
  | panicked p => rw [hending] at h; cases h
  | exhausted => rw [hending] at h; cases h

namespace Callbacks

variable (calls : Callbacks Code (Run Code Store)) {c : ComponentId} {changes : Fields}
  {options : UpdateOptions} {b : Backend Code Store} {e : ComponentError}

/-- An update is refused, by the adjustment of the component or when its changes are to be stored. -/
inductive Refuses (c : ComponentId) (changes : Fields) (options : UpdateOptions) (b : Backend Code Store)
    (e : ComponentError) : Prop
  | adjusting (some_ : changes.isEmpty = false)
      (ending : (calls.adjusted c changes).ending b = .value (.error e))
  | storing (some_ : changes.isEmpty = false) {adjusted : Fields} (left : adjusted.isEmpty = false)
      (ending : (calls.adjusted c changes).ending b = .value (.ok adjusted))
      (refused : ((calls.adjusted c changes).last b).change c adjusted options = .error e)

variable {calls}

/-- An update that is refused does the same whatever the listeners are, and leaves the state that the
adjustment left. -/
theorem Refuses.does_update (h : calls.Refuses c changes options b e) : ∃ acts,
    (∀ listener, ((calls.hearing listener).update c changes options).Does b acts (.error e)) ∧
      b.play acts = (calls.adjusted c changes).last b := by
  have hadjusted : ∀ {outcome}, (calls.adjusted c changes).ending b = .value outcome →
      (calls.adjusted c changes).Does b ((calls.adjusted c changes).acts b) outcome := fun h => ⟨rfl, h⟩
  cases h with
  | adjusting hsome hending =>
      refine ⟨(calls.adjusted c changes).acts b ++ [], fun listener => ?_, ?_⟩
      · unfold update
        rw [hsome, if_neg Bool.false_ne_true]
        exact (hadjusted hending).bind (Run.does_pure _ _)
      · rw [List.append_nil, ← Run.finish_eq_play]
  | @storing hsome adjusted hleft hending hrefused =>
      rw [(hadjusted hending).last_eq] at hrefused
      refine ⟨(calls.adjusted c changes).acts b ++ [.change c adjusted options], fun listener => ?_, ?_⟩
      · unfold update
        rw [hsome, if_neg Bool.false_ne_true]
        refine (hadjusted hending).bind ?_
        dsimp only
        rw [hleft, if_neg Bool.false_ne_true]
        refine Run.Does.step ?_
        rw [hrefused]
        exact Run.does_pure _ _
      · rw [Backend.play_append, Backend.play_cons, Backend.play_nil, Backend.apply_change_of_error hrefused,
          ← Run.finish_eq_play]

/-- An update fails only when it is refused: once its changes are stored, it succeeds. -/
theorem refuses_of_ending (h : (calls.update c changes options).ending b = .value (.error e)) :
    calls.Refuses c changes options b e := by
  unfold update at h
  cases hsome : changes.isEmpty with
  | true => rw [hsome] at h; cases h
  | false =>
      rw [hsome, if_neg Bool.false_ne_true] at h
      obtain ⟨outcome, hending, h⟩ := Run.value_of_bind h
      cases outcome with
      | error e' => cases h; exact .adjusting hsome hending
      | ok adjusted =>
          dsimp only at h
          cases hleft : adjusted.isEmpty with
          | true => rw [hleft] at h; cases h
          | false =>
              rw [hleft, if_neg Bool.false_ne_true] at h
              obtain ⟨stored, hstored, h⟩ := Run.value_of_bind h
              cases stored with
              | ok delivery =>
                  obtain ⟨-, -, h⟩ := Run.value_of_bind h
                  cases h
              | error e' =>
                  cases h
                  have hanswer : (((calls.adjusted c changes).last b).change c adjusted options).map (·.1) =
                      .error e := Ending.value.inj hstored
                  refine .storing hsome hleft hending ?_
                  cases hchange : ((calls.adjusted c changes).last b).change c adjusted options with
                  | ok told => rw [hchange] at hanswer; cases hanswer
                  | error e' => rw [hchange] at hanswer; cases hanswer; rfl

theorem ofUpdate_of_adjusted (h : (calls.adjusted c changes).ending b = .value (.error e)) :
    e.OfUpdate c := by
  unfold adjusted at h
  obtain ⟨component?, hread, h⟩ := Run.value_of_bind h
  cases component? with
  | none => cases h; exact .destroyed
  | some k =>
      dsimp only at h
      split at h
      · cases h
        exact .destroyed
      · cases h
      · obtain ⟨outcome, -, h⟩ := Run.value_of_bind h
        cases outcome with
        | ok adjusted => cases h
        | error reason => cases h; exact .aborted reason

theorem Refuses.ofUpdate (h : calls.Refuses c changes options b e) : e.OfUpdate c := by
  cases h with
  | adjusting _ hending => exact ofUpdate_of_adjusted hending
  | storing _ _ _ hrefused => exact Backend.ofUpdate_of_change hrefused

end Callbacks

/-- An update that fails changes nothing, when the adjustment of the component carries out no operation on
components. The component is as it was: its fields, its batch with what that keeps back and its options, its
listeners and its phase; and so is every other component. Nothing is sent in any session in which the adjustment
sends no message of its own. No listener is called: with any other code of listeners the update does the same.
And the whole state is the one that the adjustment left. -/
theorem rejected_update_changes_nothing (calls : Callbacks Code (Run Code Store)) (b : Backend Code Store)
    (c : ComponentId) (changes : Fields) (options : UpdateOptions) {e : ComponentError}
    (rejected : (calls.update c changes options).ending b = .value (.error e))
    (aside : ∀ a ∈ (calls.adjusted c changes).acts b, a.isOfComponents = false) :
    let b' := (calls.update c changes options).last b
    (∀ c', b'.component? c' = b.component? c') ∧
    (∀ s, (∀ m, .send s m ∉ (calls.adjusted c changes).acts b) → b'.sentTo s = b.sentTo s) ∧
    (∀ listener, ((calls.hearing listener).update c changes options).Does b
      ((calls.update c changes options).acts b) (.error e)) ∧
    b' = (calls.adjusted c changes).last b ∧
    e.OfUpdate c := by
  intro b'
  have hrefuses := Callbacks.refuses_of_ending rejected
  obtain ⟨acts, hdoes, hlast⟩ := hrefuses.does_update
  have hself : (calls.update c changes options).Does b acts (.error e) := hdoes calls.listener
  have hleft : b' = (calls.adjusted c changes).last b := hself.last_eq.trans hlast
  have hplay : b' = b.play ((calls.adjusted c changes).acts b) := hleft.trans (Run.finish_eq_play _ b)
  refine ⟨fun c' => ?_, fun s unsent => ?_, fun listener => ?_, hleft, hrefuses.ofUpdate⟩
  · rw [hplay]
    exact Backend.component?_play_of_not_isOfComponents aside c'
  · rw [hplay]
    exact Backend.sentTo_play_of_not_isOfComponents aside unsent
  · rw [hself.acts_eq]
    exact hdoes listener

/-! ## a change set that fails at its last key -/

namespace Sample

/-- The component that can be locked, with a list. -/
def unlockedList : Backend Unit Unit := unlocked.play [.change 1 [("xs", .arr [.int 1])] {}]

/-- An action that can be carried out, and one that cannot. -/
def halfway : Fields := [("xs__append", .int 2), ("xs__remove", .int 9)]

end Sample

/-- The second action is refused, and the first one has left no trace. -/
theorem halfway_changes_nothing :
    (Sample.lockingCalls.update 1 Sample.halfway {}).ending Sample.unlockedList =
        .value (.error (.notInList "xs" (.int 9))) ∧
      ((Sample.lockingCalls.update 1 Sample.halfway {}).last Sample.unlockedList).fields 1 =
        [("xs", .arr [.int 1])] := by
  have hrejected : (Sample.lockingCalls.update 1 Sample.halfway {}).ending Sample.unlockedList =
      .value (.error (.notInList "xs" (.int 9))) := rfl
  obtain ⟨hcomponents, -⟩ := rejected_update_changes_nothing Sample.lockingCalls Sample.unlockedList 1
    Sample.halfway {} hrejected fun _ => nofun
  refine ⟨hrejected, ?_⟩
  rw [Backend.fields, hcomponents 1]
  rfl

end ViewSync
