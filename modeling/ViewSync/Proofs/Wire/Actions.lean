import ViewSync.Proofs.Wire.Change

/-!
# ViewSync.Proofs.Wire.Actions

List actions. A key is an action key exactly when it is the key of an action on a field with a name
(`parseActionKey?_eq_some_iff`); the field is what stands in front of the last separator, whatever separators
it has in it (`splitLast?_actionKey`). A change set is resolved all at once. Unless a field and an action on
it stand in it together, that comes to what its keys come to one at a time (`resolve_eq_applyEach`), and it
fails where the first of them fails.
-/

namespace ViewSync

/-! ## action keys -/

theorem stripEnd?_eq_some_iff {ending text front : List Char} :
    stripEnd? ending text = some front ↔ text = front ++ ending := by
  unfold stripEnd?
  split
  · next h =>
    obtain ⟨front', rfl⟩ := List.isSuffixOf_iff_suffix.1 h
    simp [eq_comm]
  · next h =>
    rw [List.isSuffixOf_iff_suffix] at h
    refine ⟨nofun, fun htext => ?_⟩
    exact absurd ⟨front, htext.symm⟩ h

theorem toList_actionKey (field : String) (action : ListAction) :
    (actionKey field action).toList = field.toList ++ ("__" ++ action.word).toList := by
  simp [actionKey, String.toList_append]

theorem actionField?_eq_some_iff {action : ListAction} {key field : String} :
    actionField? action key = some field ↔ field ≠ "" ∧ key = actionKey field action := by
  have hkey : key = actionKey field action ↔
      stripEnd? ("__" ++ action.word).toList key.toList = some field.toList := by
    rw [stripEnd?_eq_some_iff, ← toList_actionKey, String.toList_inj]
  have hempty : field ≠ "" ↔ field.toList ≠ [] := by simp
  rw [hkey, hempty, actionField?]
  cases hstrip : stripEnd? ("__" ++ action.word).toList key.toList with
  | none => simp
  | some front =>
      cases front with
      | nil =>
          refine ⟨nofun, fun h => ?_⟩
          exact absurd (Option.some.inj h.2).symm h.1
      | cons c cs => grind [String.toList_ofList, String.ofList_toList]

/-- The words of the actions are told apart by the ends of keys. -/
theorem actionKey_inj {field field' : String} {action action' : ListAction}
    (h : actionKey field action = actionKey field' action') : field = field' ∧ action = action' := by
  have hlist : field.toList ++ ("__" ++ action.word).toList = field'.toList ++ ("__" ++ action'.word).toList := by
    rw [← toList_actionKey, ← toList_actionKey, h]
  have hlength : ("__" ++ action.word).toList.length = ("__" ++ action'.word).toList.length := by
    cases action <;> cases action' <;> decide
  obtain ⟨hfield, hword⟩ := List.append_inj' hlist hlength
  refine ⟨String.toList_inj.1 hfield, ?_⟩
  cases action <;> cases action' <;> first | rfl | exact absurd hword (by decide)

/-- A key is an action key exactly when it is the key of an action on a field with a name. -/
theorem parseActionKey?_eq_some_iff {key field : String} {action : ListAction} :
    parseActionKey? key = some (field, action) ↔ field ≠ "" ∧ key = actionKey field action := by
  rw [← actionField?_eq_some_iff, parseActionKey?]
  cases happend : actionField? .append key with
  | some field' =>
      obtain ⟨hne, rfl⟩ := actionField?_eq_some_iff.1 happend
      simp only [Option.some.injEq, Prod.mk.injEq, actionField?_eq_some_iff]
      constructor
      · rintro ⟨rfl, rfl⟩
        exact ⟨hne, rfl⟩
      · rintro ⟨-, hkey⟩
        exact actionKey_inj hkey
  | none => cases action <;> simp [happend]

/-! ### the last separator -/

/-- What stands in front of the last separator of a text, and what stands behind it. -/
def splitLast? : List Char → Option (List Char × List Char)
  | [] => none
  | c :: rest =>
    match splitLast? rest with
    | some (front, back) => some (c :: front, back)
    | none => if c = '_' ∧ rest.head? = some '_' then some ([], rest.tail) else none

theorem splitLast?_eq_none {word : List Char} (h : '_' ∉ word) : splitLast? word = none := by
  induction word with
  | nil => rfl
  | cons c word ih =>
      obtain ⟨hc, hword⟩ := List.ne_and_not_mem_of_not_mem_cons h
      simp [splitLast?, ih hword, hc.symm]

/-- Behind the last separator stands a word without one, in front of it anything. -/
theorem splitLast?_append {front word : List Char} (h : '_' ∉ word) :
    splitLast? (front ++ '_' :: '_' :: word) = some (front, word) := by
  induction front with
  | nil =>
      have hword : word.head? ≠ some '_' := fun hhead => h (List.mem_of_mem_head? hhead)
      simp [splitLast?, splitLast?_eq_none h, hword]
  | cons c front ih => simp [splitLast?, ih]

theorem eq_of_splitLast? {text front back : List Char} (h : splitLast? text = some (front, back)) :
    text = front ++ '_' :: '_' :: back := by
  induction text generalizing front with
  | nil => cases h
  | cons c rest ih =>
      unfold splitLast? at h
      split at h
      · next front' back' hrest =>
        cases h
        rw [ih hrest, List.cons_append]
      · split at h
        · next hc =>
          cases h
          obtain ⟨rfl, hhead⟩ := hc
          cases rest with
          | nil => cases hhead
          | cons d rest => cases hhead; rfl
        · cases h

/-- The field of an action key stands in front of the last separator, the word for the action behind it. -/
theorem splitLast?_actionKey {key field : String} {action : ListAction} :
    splitLast? key.toList = some (field.toList, action.word.toList) ↔ key = actionKey field action := by
  have hword : '_' ∉ action.word.toList := by cases action <;> decide
  have hkey : (actionKey field action).toList = field.toList ++ '_' :: '_' :: action.word.toList := by
    rw [toList_actionKey, String.toList_append]
    rfl
  constructor
  · intro h
    rw [← String.toList_inj, hkey]
    exact eq_of_splitLast? h
  · rintro rfl
    rw [hkey, splitLast?_append hword]

/-! ## change sets without a field and an action on it -/

namespace Fields

theorem has_iff {fields : Fields} {n : String} : fields.has n = true ↔ n ∈ fields.names := by
  simp [has, names]

/-- Whether there is an action on a field among changes. -/
def actsOn (changes : Fields) (field : String) : Bool :=
  changes.any fun change => (parseActionKey? change.1).any (·.1 = field)

/-- No field stands among changes together with an action on it. -/
def Apart (all changes : Fields) : Prop :=
  ∀ field, changes.actsOn field = true → all.has field = false

end Fields

/-- Applies the keys of a change set one at a time, each to the fields that the ones before it left. When one
of them fails, it is named. -/
def applyEach : Fields → Fields → Except (String × ChangeError) Fields
  | fields, [] => .ok fields
  | fields, (key, value) :: rest =>
    match resolve fields [(key, value)] with
    | .error e => .error (key, e)
    | .ok resolved => applyEach (applyChanges fields resolved) rest

/-- A change set fails at one of its keys: those before it can be resolved, and it cannot. -/
def FailsAt (fields changes : Fields) (key : String) (e : ChangeError) : Prop :=
  ∃ before value behind resolved, changes = before ++ (key, value) :: behind ∧
    resolveKeys fields changes [] before = .ok resolved ∧
    resolveKey fields changes resolved key value = .error e

theorem resolveKeys_append (fields all resolved before behind : Fields) :
    resolveKeys fields all resolved (before ++ behind) =
      resolveKeys fields all resolved before >>= fun resolved => resolveKeys fields all resolved behind := by
  induction before generalizing resolved with
  | nil => rfl
  | cons change before ih =>
      obtain ⟨key, value⟩ := change
      simp only [List.cons_append, resolveKeys]
      cases resolveKey fields all resolved key value with
      | error e => rfl
      | ok resolved' => exact ih resolved'

theorem resolveKeys_cons_of_ok {fields all resolved resolved' rest : Fields} {key : String} {value : Json}
    (h : resolveKey fields all resolved key value = .ok resolved') :
    resolveKeys fields all resolved ((key, value) :: rest) = resolveKeys fields all resolved' rest := by
  rw [resolveKeys, h]
  rfl

theorem FailsAt.resolve_eq {fields changes : Fields} {key : String} {e : ChangeError}
    (h : FailsAt fields changes key e) : resolve fields changes = .error e := by
  obtain ⟨before, value, behind, resolved, hchanges, hbefore, hkey⟩ := h
  have happend := resolveKeys_append fields changes [] before ((key, value) :: behind)
  rw [← hchanges, hbefore] at happend
  rw [resolve, happend]
  simp only [bind, Except.bind, resolveKeys, hkey]

/-! ### one key -/

/-- The list that an action makes of what it works on. -/
def listAfter (fields resolved : Fields) (field : String) (action : ListAction) (value : Json) :
    Except ChangeError (List Json) :=
  listFor fields resolved field >>= action.run field value

theorem resolveKey_of_action {fields all resolved : Fields} {key field : String} {value : Json}
    {action : ListAction} (hkey : parseActionKey? key = some (field, action))
    (apart : all.has field = false) :
    resolveKey fields all resolved key value =
      (listAfter fields resolved field action value).map fun items =>
        (resolved.put key value).put field (.arr items) := by
  simp only [resolveKey, hkey, apart, listAfter, Bool.false_eq_true, if_false]
  cases listFor fields resolved field with
  | error e => rfl
  | ok items =>
      show (action.run field value items >>= _) = (action.run field value items).map _
      cases action.run field value items <;> rfl

/-- A resolved key is there, and so is the field that it acts on. -/
theorem mem_names_resolveKey {fields all resolved resolved' : Fields} {key : String} {value : Json}
    (h : resolveKey fields all resolved key value = .ok resolved') (n : String) :
    n ∈ resolved'.names ↔
      n ∈ resolved.names ∨ n = key ∨ (parseActionKey? key).any (·.1 = n) = true := by
  cases hkey : parseActionKey? key with
  | none =>
      simp only [resolveKey, hkey, Except.ok.injEq] at h
      rw [← h, Fields.mem_names_put]
      simp [or_comm]
  | some target =>
      obtain ⟨field, action⟩ := target
      cases apart : all.has field with
      | true => simp [resolveKey, hkey, apart] at h
      | false =>
          rw [resolveKey_of_action hkey apart] at h
          cases hlist : listAfter fields resolved field action value with
          | error e => simp [hlist, Except.map] at h
          | ok items =>
              simp only [hlist, Except.map, Except.ok.injEq] at h
              rw [← h, Fields.mem_names_put, Fields.mem_names_put]
              simp only [Option.any_some, decide_eq_true_eq]
              grind

theorem mem_names_resolveKeys {fields all resolved resolved' rest : Fields}
    (h : resolveKeys fields all resolved rest = .ok resolved') (n : String) :
    n ∈ resolved'.names ↔ n ∈ resolved.names ∨ n ∈ rest.names ∨ rest.actsOn n = true := by
  induction rest generalizing resolved with
  | nil =>
      simp only [resolveKeys, Except.ok.injEq] at h
      simp [h, Fields.names, Fields.actsOn]
  | cons change rest ih =>
      obtain ⟨key, value⟩ := change
      cases hkey : resolveKey fields all resolved key value with
      | error e => simp [resolveKeys, hkey, bind, Except.bind] at h
      | ok next =>
          rw [resolveKeys_cons_of_ok hkey] at h
          rw [ih h, mem_names_resolveKey hkey]
          simp only [Fields.names, Fields.actsOn, List.map_cons, List.mem_cons, List.any_cons, Bool.or_eq_true]
          grind

/-- A resolved change set has the keys of the change set, and the fields that they act on. -/
theorem mem_names_resolve {fields changes resolved : Fields} (h : resolve fields changes = .ok resolved)
    (n : String) : n ∈ resolved.names ↔ n ∈ changes.names ∨ changes.actsOn n = true := by
  simpa [Fields.names] using mem_names_resolveKeys h n

/-- A key alone resolves to itself, and the list that it makes, if it is an action key. -/
theorem resolve_singleton_of_plain {fields : Fields} {key : String} {value : Json}
    (hkey : parseActionKey? key = none) : resolve fields [(key, value)] = .ok [(key, value)] := by
  simp only [resolve, resolveKeys, resolveKey, hkey]
  rfl

theorem ne_of_parseActionKey? {key field : String} {action : ListAction}
    (hkey : parseActionKey? key = some (field, action)) : key ≠ field := by
  obtain ⟨-, rfl⟩ := parseActionKey?_eq_some_iff.1 hkey
  intro heq
  have hlength := congrArg (·.toList.length) heq
  simp only [toList_actionKey, List.length_append, String.toList_append] at hlength
  have hword : ("__" : String).toList.length = 2 := rfl
  omega

theorem resolve_singleton_of_action {fields : Fields} {key field : String} {value : Json}
    {action : ListAction} (hkey : parseActionKey? key = some (field, action)) :
    resolve fields [(key, value)] =
      (listAfter fields [] field action value).map fun items => [(key, value), (field, .arr items)] := by
  have hne : key ≠ field := ne_of_parseActionKey? hkey
  have hapart : Fields.has [(key, value)] field = false := by simp [Fields.has, hne]
  have hone : resolveKey fields [(key, value)] [] key value = _ := resolveKey_of_action hkey hapart
  rw [resolve, resolveKeys, hone]
  cases listAfter fields [] field action value with
  | error e => rfl
  | ok items =>
      show Except.ok (Fields.put [(key, value)] field (.arr items)) = _
      rw [Fields.put_cons, if_neg hne]
      rfl

theorem applyChanges_put_of_plain {resolved : Fields} (h : resolved.names.Nodup) (fields : Fields)
    {key : String} (plain : isActionKey key = false) (value : Json) :
    applyChanges fields (resolved.put key value) = (applyChanges fields resolved).put key value := by
  unfold applyChanges
  rw [Fields.filter_put (fun name => !isActionKey name), plain, Bool.not_false, if_pos rfl,
    Fields.putAll_put (Fields.nodup_filter h _)]

theorem applyChanges_put_of_action {fields resolved : Fields} {key : String}
    (action : isActionKey key = true) (value : Json) :
    applyChanges fields (resolved.put key value) = applyChanges fields resolved := by
  unfold applyChanges
  rw [Fields.filter_put (fun name => !isActionKey name), action, Bool.not_true, if_neg Bool.false_ne_true]

/-! ### all keys -/

/-- Of changes that have been made, what they have become all at once agrees with the fields that they left
one at a time. -/
structure Agrees (fields made resolved mid : Fields) : Prop where
  applied : applyChanges fields resolved = mid
  nodup : resolved.names.Nodup
  plain : ∀ n ∈ mid.names, isActionKey n = false
  get?_eq : ∀ n, resolved.get? n =
    if made.has n then made.get? n else if made.actsOn n then mid.get? n else none
  lists : ∀ n, made.actsOn n = true → ∃ items, mid.get? n = some (.arr items)
  untouched : ∀ n, made.has n = false → made.actsOn n = false → mid.get? n = fields.get? n

namespace Fields

theorem has_append (made more : Fields) (n : String) : has (made ++ more) n = (made.has n || more.has n) :=
  List.any_append

theorem actsOn_append (made more : Fields) (n : String) :
    actsOn (made ++ more) n = (made.actsOn n || more.actsOn n) :=
  List.any_append

theorem has_concat (made : Fields) (key n : String) (value : Json) :
    has (made ++ [(key, value)]) n = (made.has n || decide (key = n)) := by
  simp [has, Bool.beq_eq_decide_eq]

theorem actsOn_concat (made : Fields) (key n : String) (value : Json) :
    actsOn (made ++ [(key, value)]) n = (made.actsOn n || (parseActionKey? key).any (·.1 = n)) := by
  simp [actsOn]

theorem get?_concat (made : Fields) (key n : String) (value : Json) :
    get? (made ++ [(key, value)]) n = if made.has n then made.get? n else if key = n then some value else none := by
  induction made with
  | nil => simp [has, get?]
  | cons change made ih =>
      have hhas : has (change :: made) n = (decide (change.1 = n) || has made n) := by
        simp [has, Bool.beq_eq_decide_eq]
      rw [List.cons_append, get?_cons, get?_cons, ih, hhas]
      by_cases hn : change.1 = n <;> simp [hn]

end Fields

theorem agrees_nil {fields : Fields} (plain : ∀ n ∈ fields.names, isActionKey n = false) :
    Agrees fields [] [] fields where
  applied := rfl
  nodup := Fields.nodup_names_nil
  plain := plain
  get?_eq _ := rfl
  lists _ h := by cases h
  untouched _ _ _ := rfl

/-- Without earlier actions an action works on the field itself. -/
theorem listFor_nil (fields : Fields) (field : String) : listFor fields [] field =
    match fields.get? field with
    | some (.arr items) => .ok items
    | some _ => .error (.notAList field)
    | none => .error (.unknownField field) := rfl

namespace Agrees

variable {fields made resolved mid : Fields} {key : String} {value : Json}

theorem put (h : Agrees fields made resolved mid) (hkey : parseActionKey? key = none)
    (fresh : made.has key = false) (apart : made.actsOn key = false) :
    Agrees fields (made ++ [(key, value)]) (resolved.put key value) (mid.put key value) where
  applied := by
    rw [applyChanges_put_of_plain h.nodup fields (by simp [isActionKey, hkey]), h.applied]
  nodup := Fields.nodup_put h.nodup key value
  plain n hn := by
    obtain rfl | hn := Fields.mem_names_put.1 hn
    · simp [isActionKey, hkey]
    · exact h.plain n hn
  get?_eq n := by
    rw [Fields.get?_put, h.get?_eq, Fields.get?_put, Fields.has_concat, Fields.get?_concat, Fields.actsOn_concat, hkey]
    by_cases hn : key = n
    · subst hn
      simp [fresh]
    · by_cases hhas : made.has n = true <;> simp [hn, hhas]
  lists n hn := by
    rw [Fields.actsOn_concat, hkey, Option.any_none, Bool.or_false] at hn
    have hne : key ≠ n := by
      rintro rfl
      rw [apart] at hn
      cases hn
    rw [Fields.get?_put, if_neg hne]
    exact h.lists n hn
  untouched n hhas hacts := by
    rw [Fields.has_concat, Bool.or_eq_false_iff, decide_eq_false_iff_not] at hhas
    rw [Fields.actsOn_concat, hkey, Option.any_none, Bool.or_false] at hacts
    rw [Fields.get?_put, if_neg hhas.2, h.untouched n hhas.1 hacts]

/-- An action changes the list of its field, which was there and keeps its place. -/
theorem act (h : Agrees fields made resolved mid) {field : String} {action : ListAction}
    (hkey : parseActionKey? key = some (field, action)) (fresh : made.has key = false)
    (plain : isActionKey field = false) (apart : made.has field = false) (items : List Json) :
    Agrees fields (made ++ [(key, value)]) ((resolved.put key value).put field (.arr items))
      (mid.put field (.arr items)) where
  applied := by
    have hnodup : (resolved.put key value).names.Nodup := Fields.nodup_put h.nodup key value
    rw [applyChanges_put_of_plain hnodup fields plain,
      applyChanges_put_of_action (by simp [isActionKey, hkey]), h.applied]
  nodup := Fields.nodup_put (Fields.nodup_put h.nodup key value) field _
  plain n hn := by
    obtain rfl | hn := Fields.mem_names_put.1 hn
    · exact plain
    · exact h.plain n hn
  get?_eq n := by
    have hne : key ≠ field := ne_of_parseActionKey? hkey
    rw [Fields.get?_put, Fields.get?_put, h.get?_eq, Fields.get?_put, Fields.has_concat, Fields.get?_concat,
      Fields.actsOn_concat, hkey]
    by_cases hfield : field = n
    · subst hfield
      simp [hne, apart]
    · by_cases hn : key = n
      · subst hn
        simp [fresh, hfield]
      · by_cases hhas : made.has n = true <;> simp [hn, hfield, hhas]
  lists n hn := by
    rw [Fields.get?_put]
    split
    · exact ⟨items, rfl⟩
    · next hne =>
      rw [Fields.actsOn_concat, hkey] at hn
      exact h.lists n (by simpa [hne] using hn)
  untouched n hhas hacts := by
    rw [Fields.has_concat, Bool.or_eq_false_iff, decide_eq_false_iff_not] at hhas
    rw [Fields.actsOn_concat, hkey, Bool.or_eq_false_iff] at hacts
    have hne : field ≠ n := by simpa using hacts.2
    rw [Fields.get?_put, if_neg hne, h.untouched n hhas.1 hacts.1]

/-- An action works on the same list both ways. -/
theorem listFor_eq (h : Agrees fields made resolved mid) {field : String} (apart : made.has field = false) :
    listFor fields resolved field = listFor mid [] field := by
  have hresolved := h.get?_eq field
  rw [apart, if_neg Bool.false_ne_true] at hresolved
  cases hacts : made.actsOn field with
  | true =>
      obtain ⟨items, hitems⟩ := h.lists field hacts
      rw [hacts, if_pos rfl, hitems] at hresolved
      rw [listFor_nil, listFor, hresolved, hitems]
  | false =>
      rw [hacts, if_neg Bool.false_ne_true] at hresolved
      have hempty : Fields.get? [] field = none := rfl
      simp only [listFor, hresolved, hempty, h.untouched field apart hacts]

end Agrees

/-- A field with a list is not the key of an action when no field is. -/
theorem plain_of_listFor {mid : Fields} (plain : ∀ n ∈ mid.names, isActionKey n = false) {field : String}
    {items : List Json} (h : listFor mid [] field = .ok items) : isActionKey field = false := by
  refine plain field ?_
  rw [listFor_nil] at h
  cases hget : mid.get? field with
  | none => rw [hget] at h; cases h
  | some v =>
      obtain ⟨change, hfind, -⟩ := Option.map_eq_some_iff.1 hget
      have hname : change.1 = field := by simpa using List.find?_some hfind
      exact hname ▸ List.mem_map_of_mem (List.mem_of_find?_eq_some hfind)

/-- One more key: it becomes the same both ways, or fails both ways for the same reason. -/
theorem agrees_step {fields all made resolved mid : Fields} {key : String} {value : Json}
    (h : Agrees fields made resolved mid) (fresh : made.has key = false)
    (among : ∀ n, (made ++ [(key, value)]).has n = true → all.has n = true)
    (apart : Fields.Apart all (made ++ [(key, value)])) :
    (∃ resolved' written, resolveKey fields all resolved key value = .ok resolved' ∧
      resolve mid [(key, value)] = .ok written ∧
      Agrees fields (made ++ [(key, value)]) resolved' (applyChanges mid written)) ∨
    ∃ e, resolveKey fields all resolved key value = .error e ∧ resolve mid [(key, value)] = .error e := by
  have hkeyed : all.has key = true := among key (by simp [Fields.has_concat])
  have hunacted : made.actsOn key = false := by
    cases hacts : made.actsOn key with
    | false => rfl
    | true =>
        have hnot := apart key (by simp [Fields.actsOn_concat, hacts])
        rw [hkeyed] at hnot
        cases hnot
  cases hkey : parseActionKey? key with
  | none =>
      have hplain : isActionKey key = false := by simp [isActionKey, hkey]
      refine .inl ⟨_, _, by rw [resolveKey, hkey], resolve_singleton_of_plain hkey, ?_⟩
      have happly : applyChanges mid [(key, value)] = mid.put key value := by
        simp [applyChanges, hplain, Fields.putAll]
      rw [happly]
      exact h.put hkey fresh hunacted
  | some parsed =>
      obtain ⟨field, action⟩ := parsed
      have hapart : all.has field = false := apart field (by simp [Fields.actsOn_concat, hkey])
      have hunmade : made.has field = false := by
        cases hhas : made.has field with
        | false => rfl
        | true =>
            have hall := among field (by simp [Fields.has_concat, hhas])
            rw [hapart] at hall
            cases hall
      have hafter : listAfter fields resolved field action value = listAfter mid [] field action value := by
        rw [listAfter, listAfter, h.listFor_eq hunmade]
      rw [resolveKey_of_action hkey hapart, resolve_singleton_of_action hkey, hafter]
      cases hitems : listAfter mid [] field action value with
      | error e => exact .inr ⟨e, rfl, rfl⟩
      | ok items =>
          have hplain : isActionKey field = false := by
            cases hlist : listFor mid [] field with
            | error e => rw [listAfter, hlist] at hitems; cases hitems
            | ok old => exact plain_of_listFor h.plain hlist
          refine .inl ⟨_, _, rfl, rfl, ?_⟩
          have happly : applyChanges mid [(key, value), (field, .arr items)] = mid.put field (.arr items) := by
            have haction : isActionKey key = true := by simp [isActionKey, hkey]
            simp [applyChanges, haction, hplain, Fields.putAll]
          rw [happly]
          exact h.act hkey fresh hplain hunmade items

/-- All keys of a change set, behind some that have been made already. -/
theorem agrees_run {fields all made resolved mid : Fields} (h : Agrees fields made resolved mid)
    {rest : Fields} (distinct : (made ++ rest).names.Nodup)
    (among : ∀ n, (made ++ rest).has n = true → all.has n = true) (apart : Fields.Apart all (made ++ rest)) :
    (∃ resolved' final, resolveKeys fields all resolved rest = .ok resolved' ∧
      applyEach mid rest = .ok final ∧ Agrees fields (made ++ rest) resolved' final) ∨
    ∃ before key value behind resolved' e, rest = before ++ (key, value) :: behind ∧
      resolveKeys fields all resolved before = .ok resolved' ∧
      resolveKey fields all resolved' key value = .error e ∧ applyEach mid rest = .error (key, e) := by
  induction rest generalizing made resolved mid with
  | nil => exact .inl ⟨resolved, mid, rfl, rfl, by simpa using h⟩
  | cons change rest ih =>
      obtain ⟨key, value⟩ := change
      have hsplit : made ++ (key, value) :: rest = made ++ [(key, value)] ++ rest := by simp
      rw [hsplit] at distinct among apart ⊢
      have hfresh : made.has key = false := by
        have hnames : Fields.names (made ++ [(key, value)] ++ rest) = made.names ++ key :: Fields.names rest := by
          simp [Fields.names]
        rw [hnames] at distinct
        cases hhas : made.has key with
        | false => rfl
        | true =>
            have hmem : key ∈ made.names := Fields.has_iff.1 hhas
            exact absurd rfl ((List.nodup_append.1 distinct).2.2 key hmem key List.mem_cons_self)
      have hamong : ∀ n, Fields.has (made ++ [(key, value)]) n = true → all.has n = true :=
        fun n hn => among n (by rw [Fields.has_append, hn, Bool.true_or])
      have hapart : Fields.Apart all (made ++ [(key, value)]) :=
        fun field hacts => apart field (by rw [Fields.actsOn_append, hacts, Bool.true_or])
      obtain ⟨resolved', written, hresolve, hwritten, hagrees⟩ | ⟨e, hresolve, hwritten⟩ :=
        agrees_step h hfresh hamong hapart
      · obtain ⟨resolved'', final, hresolved, hfinal, hall⟩ |
          ⟨before, key', value', behind, resolved'', e, rfl, hbefore, hkey, hfinal⟩ :=
          ih hagrees distinct among apart
        · refine .inl ⟨resolved'', final, ?_, ?_, hall⟩
          · rw [resolveKeys_cons_of_ok hresolve, hresolved]
          · rw [applyEach, hwritten]
            exact hfinal
        · refine .inr ⟨(key, value) :: before, key', value', behind, resolved'', e, rfl, ?_, hkey, ?_⟩
          · rw [resolveKeys_cons_of_ok hresolve, hbefore]
          · rw [applyEach, hwritten]
            exact hfinal
      · exact .inr ⟨[], key, value, rest, resolved, e, rfl, rfl, hresolve, by simp [applyEach, hwritten]⟩

/-- A change set comes to what its keys come to one at a time, for fields none of which is named by an action
key. If no field stands in it together with an action on it, then either both ways succeed: they leave the
same fields, and the change set resolves to its keys with their values, and to every list that an action
works on as it is in the end. Or both ways fail, for the same reason at the same key. And a key that acts on a
field that stands in the change set too is a collision, unless a key in front of it fails. -/
theorem resolve_eq_applyEach {fields changes : Fields} (plain : ∀ n ∈ fields.names, isActionKey n = false)
    (distinct : changes.names.Nodup) :
    (Fields.Apart changes changes →
      (∃ resolved final, resolve fields changes = .ok resolved ∧ applyEach fields changes = .ok final ∧
        applyChanges fields resolved = final ∧ resolved.names.Nodup ∧
        (∀ n, resolved.get? n =
          if changes.has n then changes.get? n else if changes.actsOn n then final.get? n else none) ∧
        ∀ n, changes.actsOn n = true → ∃ items, final.get? n = some (.arr items)) ∨
      ∃ key e, FailsAt fields changes key e ∧ resolve fields changes = .error e ∧
        applyEach fields changes = .error (key, e)) ∧
    ∀ before key value behind field action, changes = before ++ (key, value) :: behind →
      parseActionKey? key = some (field, action) → changes.has field = true →
      Fields.Apart changes before → (∃ mid, applyEach fields before = .ok mid) →
      FailsAt fields changes key (.keyCollision field) ∧
        resolve fields changes = .error (.keyCollision field) := by
  constructor
  · intro apart
    obtain ⟨resolved, final, hresolved, hfinal, hagrees⟩ |
      ⟨before, key, value, behind, resolved, e, hchanges, hbefore, hkey, heach⟩ :=
      agrees_run (agrees_nil plain) distinct (fun _ => id) apart
    · exact .inl ⟨resolved, final, hresolved, hfinal, hagrees.applied, hagrees.nodup, hagrees.get?_eq,
        hagrees.lists⟩
    · have hfails : FailsAt fields changes key e := ⟨before, value, behind, resolved, hchanges, hbefore, hkey⟩
      exact .inr ⟨key, e, hfails, hfails.resolve_eq, heach⟩
  · intro before key value behind field action hchanges hkey hhas apart hmid
    obtain ⟨mid, hmid⟩ := hmid
    have hamong : ∀ n, before.has n = true → changes.has n = true := by
      intro n hn
      rw [hchanges, Fields.has_append, hn, Bool.true_or]
    have hdistinct : before.names.Nodup := by
      rw [hchanges] at distinct
      exact distinct.sublist ((List.sublist_append_left _ _).map _)
    obtain ⟨resolved, -, hbefore, -⟩ | ⟨_, _, _, _, _, _, -, -, -, heach⟩ :=
      agrees_run (agrees_nil plain) hdistinct hamong apart
    · have hcollides : resolveKey fields changes resolved key value = .error (.keyCollision field) := by
        rw [resolveKey, hkey]
        exact if_pos hhas
      have hfails : FailsAt fields changes key (.keyCollision field) :=
        ⟨before, value, behind, resolved, hchanges, hbefore, hcollides⟩
      exact ⟨hfails, hfails.resolve_eq⟩
    · rw [hmid] at heach
      cases heach

/-! ## actions between plain keys -/

namespace Sample

/-- Fields with a list. -/
def listed : Fields := [("xs", .arr [.int 1, .int 2]), ("n", .int 0)]

/-- Two actions on the list, with other keys in between. -/
def interleaved : Fields :=
  [("xs__append", .int 3), ("m", .null), ("xs__remove", .int 1), ("n", .int 5)]

/-- The list and an action on it. -/
def colliding : Fields := [("m", .null), ("xs__append", .int 3), ("xs", .arr [])]

end Sample

/-- Both actions are found in the list, the keys in between stay; the list and an action on it collide. -/
theorem interleaved_resolves :
    (∃ resolved, resolve Sample.listed Sample.interleaved = .ok resolved ∧
      applyEach Sample.listed Sample.interleaved = .ok (applyChanges Sample.listed resolved) ∧
      resolved.get? "xs" = some (.arr [.int 2, .int 3])) ∧
    resolve Sample.listed Sample.colliding = .error (.keyCollision "xs") := by
  have hplain : ∀ n ∈ Sample.listed.names, isActionKey n = false := by decide
  have hinterleaved : Sample.interleaved.names.Nodup := by decide
  have hcolliding : Sample.colliding.names.Nodup := by decide
  constructor
  · have hapart : Fields.Apart Sample.interleaved Sample.interleaved := by
      intro field hacts
      have hparsed : Sample.interleaved.map (fun change => parseActionKey? change.1) =
          [some ("xs", .append), none, some ("xs", .remove), none] := by decide
      have hany : (Sample.interleaved.map fun change => parseActionKey? change.1).any
          (·.any (·.1 = field)) = true := by rwa [List.any_map]
      obtain rfl : "xs" = field := by simpa [hparsed] using hany
      rfl
    obtain ⟨resolved, final, hresolved, hfinal, happlied, -, hget, -⟩ | ⟨_, _, -, hfailed, -⟩ :=
      (resolve_eq_applyEach hplain hinterleaved).1 hapart
    · refine ⟨resolved, hresolved, happlied ▸ hfinal, ?_⟩
      cases hfinal
      exact hget "xs"
    · cases hfailed
  · exact ((resolve_eq_applyEach hplain hcolliding).2 [("m", .null)] "xs__append" (.int 3) [("xs", .arr [])] "xs"
      .append rfl (by decide) rfl (fun _ => nofun) ⟨_, rfl⟩).2

end ViewSync
