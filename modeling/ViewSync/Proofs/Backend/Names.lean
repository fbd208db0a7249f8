import ViewSync.Proofs.Backend.Coherent
import ViewSync.Proofs.Backend.Execute
import ViewSync.Proofs.Wire.Actions

/-!
# ViewSync.Proofs.Backend.Names

The names of fields. An action key tells what is done to a field and is no field itself: in no state that a run
reaches does a component have a field under such a key (`action_keys_are_no_fields`), whether the key came with
an update, in a batch, or while the component was constructed.
-/

namespace ViewSync

variable {Code Store α : Type}

/-- No field of a component stands under an action key. -/
def Component.PlainNames (k : Component Code) : Prop :=
  ∀ n ∈ k.fields.names, parseActionKey? n = none

theorem parseActionKey?_eq_none_iff {key : String} : parseActionKey? key = none ↔ isActionKey key = false := by
  simp [isActionKey]

namespace Fields

theorem mem_names_putAll {fields new : Fields} {n : String} :
    n ∈ (fields.putAll new).names ↔ n ∈ fields.names ∨ n ∈ new.names := by
  induction new generalizing fields with
  | nil => simp [putAll, names]
  | cons e new ih =>
      have hstep : fields.putAll (e :: new) = (fields.put e.1 e.2).putAll new := rfl
      rw [hstep, ih, mem_names_put]
      simp only [names, List.map_cons, List.mem_cons]
      tauto

end Fields

/-- A change set adds no action key to the fields, whatever keys it has. -/
theorem plain_applyChanges {fields : Fields} (plain : ∀ n ∈ fields.names, parseActionKey? n = none)
    (changes : Fields) : ∀ n ∈ (applyChanges fields changes).names, parseActionKey? n = none := by
  intro n hn
  obtain hn | hn := Fields.mem_names_putAll.1 hn
  · exact plain n hn
  · obtain ⟨change, hchange, rfl⟩ := List.mem_map.1 hn
    have hkept := (List.mem_filter.1 hchange).2
    rw [parseActionKey?_eq_none_iff]
    simpa using hkept

namespace Backend

variable {b b' : Backend Code Store} {a : Act Code Store} {c : ComponentId} {k k' : Component Code}

theorem PlainNames.touched {d : Option (Delivery Code)} (plain : k.PlainNames) (touch : Touch c k a k' d) :
    k'.PlainNames := by
  cases touch with
  | buffered => exact plain_applyChanges plain _
  | written => exact plain_applyChanges plain _
  | _ => exact plain

/-- Every act keeps the names of fields plain. -/
theorem plainNames_effect (coherent : Coherent b) (effect : Effect b a b')
    (plain : ∀ {c k}, b.component? c = some k → k.PlainNames) (component : b'.component? c = some k') :
    k'.PlainNames := by
  obtain hold | ⟨s, kind, definition, -, rfl⟩ := component?_of_effect effect component
  · obtain ⟨k, hk⟩ := Option.isSome_iff_exists.1 hold
    obtain ⟨k'', hk'', fate⟩ := fate_effect coherent effect hk
    rw [component] at hk''
    cases hk''
    cases fate with
    | same => exact plain hk
    | retired => exact fun n hn => plain hk n hn
    | released => exact fun n hn => plain hk n hn
    | touched touch => exact PlainNames.touched (plain hk) touch
  · exact fun n hn => absurd hn List.not_mem_nil

theorem plainNames_play (store : Store) (acts : List (Act Code Store)) :
    ∀ {c k}, ((init store).play acts).component? c = some k → k.PlainNames := by
  induction acts using List.reverseRecOn with
  | nil => exact fun h => nomatch h
  | append_singleton acts a ih =>
      intro c k hk
      rw [play_append, play_cons, play_nil] at hk
      exact plainNames_effect (coherent_play store acts) (effect_apply _ a) ih hk

end Backend

/-- Action keys are recognised exactly, and they are never fields. A key is one for an action on a field just
when the field has a name and the key is the one for that action on it; so the field is what stands in front of
the last separator, underscores and further actions in its name included. And at every point of every run no
component has a field under an action key. -/
theorem action_keys_are_no_fields (calls : Callbacks Code (Prog Code Store)) (leave : Store → Store → Store)
    (fuel : Nat) (p : Prog Code Store α) (store : Store) :
    (∀ key field action, parseActionKey? key = some (field, action) ↔
      field ≠ "" ∧ key = actionKey field action) ∧
    (∀ key field action, parseActionKey? key = some (field, action) ↔
      field ≠ "" ∧ splitLast? key.toList = some (field.toList, action.word.toList)) ∧
    ∀ pre, pre <+: p.course calls leave fuel store → ∀ c k,
      ((Backend.init store).play pre).component? c = some k →
        ∀ n ∈ k.fields.names, parseActionKey? n = none := by
  refine ⟨fun key field action => parseActionKey?_eq_some_iff, fun key field action => ?_,
    fun pre _ c k hk => Backend.plainNames_play store pre hk⟩
  rw [parseActionKey?_eq_some_iff, splitLast?_actionKey]

/-- The list of the sample grows by an action; what it has then is one field, under the name of the list. -/
theorem growing_names :
    parseActionKey? "my___items__append__remove" = some ("my___items__append", .remove) ∧
      ∃ k, ((Backend.init ()).play (Sample.course Sample.growing)).component? 1 = some k ∧
        k.fields.names = ["items"] ∧ ∀ n ∈ k.fields.names, parseActionKey? n = none := by
  obtain ⟨hkeys, -, hfields⟩ := action_keys_are_no_fields
    (Sample.calls fun _ => Sample.view ⟨"app", "", "View"⟩ "") (fun _ after => after) 3 Sample.growing ()
  exact ⟨(hkeys _ _ _).2 ⟨by decide, by decide⟩, _, rfl, rfl, hfields _ (List.prefix_refl _) 1 _ rfl⟩

end ViewSync
