import Mathlib.Data.List.Infix
import ViewSync.Proofs.Backend.Coherent
import ViewSync.Proofs.Backend.Execute
import ViewSync.Proofs.Wire.Change

/-!
# ViewSync.Proofs.Backend.Batches

A batch is its updates. The same updates of an active component, made one after another and made inside a
batch that is then committed, have the same results and leave the component the same; and what the commit
tells at once has the effect of what the updates tell one by one.

Both ways are compared with a third one, in which there is no state but the fields: `editsOf` says what the
updates come to, given what the adjustment of the component makes of fields and changes. What the code of the
component does besides must leave the component alone (`Spares`).

* `Callbacks.does_update_unbatched`, `Callbacks.does_update_batched` — one update, told at once or kept back;
* `batch_eq_updates` — all of them.
-/

namespace ViewSync

variable {Code Store α : Type}

/-! ## acts on a component -/

/-- The component on which an act is carried out. -/
def Act.on? : Act Code Store → Option ComponentId
  | .activate c | .abandon c | .destroy c => some c
  | .change c .. | .openBatch c .. | .beginBatch c .. | .commit c _ | .drop c _ => some c
  | .listen c .. | .unlisten c _ => some c
  | _ => none

/-- Acts that leave a component of a session alone: none is carried out on it, and the session is not
closed. -/
def Spares (c : ComponentId) (s : SessionId) (acts : List (Act Code Store)) : Prop :=
  ∀ a ∈ acts, a.on? ≠ some c ∧ a ≠ .close s

namespace Backend

/-- A session is open at every point. -/
def OpenAlong (b : Backend Code Store) (s : SessionId) (acts : List (Act Code Store)) : Prop :=
  ∀ pre, pre <+: acts → (b.play pre).isOpen s = true

/-- The messages that the acts on a component put on the channel of a session. -/
def told (c : ComponentId) (s : SessionId) : Backend Code Store → List (Act Code Store) → List Message
  | _, [] => []
  | b, a :: rest =>
    (if a.on? = some c then ((a.apply b).sentTo s).drop (b.sentTo s).length else []) ++
      told c s (a.apply b) rest

variable {b : Backend Code Store} {c : ComponentId} {s : SessionId} {k : Component Code}
  {acts more : List (Act Code Store)}

theorem told_append : b.told c s (acts ++ more) = b.told c s acts ++ (b.play acts).told c s more := by
  induction acts generalizing b with
  | nil => rfl
  | cons a acts ih =>
      simp only [List.cons_append, told, ih, List.append_assoc]
      rfl

theorem told_of_spares (h : Spares c s acts) : b.told c s acts = [] := by
  induction acts generalizing b with
  | nil => rfl
  | cons a acts ih =>
      have hon : a.on? ≠ some c := (h a List.mem_cons_self).1
      rw [told, if_neg hon, ih fun a' ha' => h a' (List.mem_cons_of_mem _ ha')]
      rfl

/-- An act on a component tells what it puts on the channel. -/
theorem told_cons_of_on {a : Act Code Store} (hon : a.on? = some c) {ms : List Message}
    (sent : (a.apply b).sentTo s = b.sentTo s ++ ms) :
    b.told c s (a :: acts) = ms ++ (a.apply b).told c s acts := by
  rw [told, if_pos hon, sent, List.drop_left]

theorem OpenAlong.left (h : b.OpenAlong s (acts ++ more)) : b.OpenAlong s acts :=
  fun pre hpre => h pre (hpre.trans (List.prefix_append acts more))

theorem OpenAlong.right (h : b.OpenAlong s (acts ++ more)) : (b.play acts).OpenAlong s more := by
  intro pre hpre
  rw [← play_append]
  exact h (acts ++ pre) ((List.prefix_append_right_inj acts).2 hpre)

/-- An act on another component leaves a component as it is. -/
theorem component?_apply_of_other {c' : ComponentId} {a : Act Code Store} (hon : a.on? = some c')
    (hne : c ≠ c') : (a.apply b).component? c = b.component? c := by
  have htell : ∀ (k' : Component Code) (d : Option (Delivery Code)),
      (b.tell c' k' d).component? c = b.component? c := by
    intro k' d
    rw [component?_tell, if_neg hne]
  have hdestroy : (b.afterTry (b.destroy c')).component? c = b.component? c := by
    unfold destroy
    split
    · rfl
    · split
      · rfl
      · exact (component?_retired c' c _).trans (if_neg hne)
  cases a with
  | activate =>
      cases hon
      exact (b.component?_modifyComponent c' c _).trans (if_neg hne)
  | abandon => cases hon; exact hdestroy
  | destroy => cases hon; exact hdestroy
  | change _ changes options =>
      cases hon
      simp only [Act.apply, Backend.change]
      split
      · rfl
      · next k' _ =>
        cases k'.write c' changes options with
        | error e => rfl
        | ok written => exact htell written.1 written.2
  | openBatch _ holder options =>
      cases hon
      obtain ⟨e, h⟩ | ⟨k', -, -, -, h⟩ := b.openBatch_cases c' holder options
      · rw [Act.apply, h]; rfl
      · rw [Act.apply, h]; exact htell _ none
  | beginBatch _ options =>
      cases hon
      simp only [Act.apply, Backend.beginBatch]
      obtain ⟨e, h⟩ | ⟨k', -, -, -, h⟩ := b.openBatch_cases c' (.handle b.nextBatch) options
      · rw [h]; rfl
      · rw [h]; exact htell _ none
  | commit _ holder =>
      cases hon
      simp only [Act.apply, Backend.commit]
      split
      · rfl
      · exact htell _ _
  | drop _ holder =>
      cases hon
      simp only [Act.apply, Backend.drop]
      split
      · rfl
      · exact htell _ none
  | listen _ fields code =>
      cases hon
      simp only [Act.apply, Backend.listen]
      split
      · rfl
      · exact htell _ none
  | unlisten _ id =>
      cases hon
      simp only [Act.apply, Backend.unlisten]
      split
      · rfl
      · exact htell _ none
  | _ => cases hon

/-- An act that leaves a component alone leaves it as it is. -/
theorem component?_apply_of_spares {a : Act Code Store} (h : Coherent b) (hc : b.component? c = some k)
    (hon : a.on? ≠ some c) (hclose : a ≠ .close k.session) : (a.apply b).component? c = some k := by
  cases a with
  | openSession config channel => exact hc
  | send s m => exact ((b.sameParts_send s m).components c).trans hc
  | close s =>
      have hmem : c ∉ (b.session s).arena := by
        intro hmem
        obtain ⟨k', hk', rfl, -⟩ := h.member hmem
        rw [hc] at hk'
        cases hk'
        exact hclose rfl
      exact (b.component?_close s c).trans (by rw [if_neg hmem, hc])
  | enroll s kind definition =>
      have hne : c ≠ b.nextComponent := Nat.ne_of_lt (h.component_lt hc)
      obtain ⟨e, henroll⟩ | ⟨-, -, henroll⟩ := b.enroll_cases s kind definition
      · rw [Act.apply, henroll]
        exact hc
      · have hparts : Enrolled b (b.enroll s kind definition).2 s kind definition :=
          b.enrolled_parts (Prod.ext (by rw [henroll]) rfl)
        exact (hparts.components c).trans (by rw [if_neg hne, hc])
  | activate | abandon | destroy | change | openBatch | beginBatch | commit | drop | listen | unlisten =>
      exact (component?_apply_of_other rfl fun heq => hon (congrArg some heq.symm)).trans hc
  | _ => exact ((still_apply rfl b).components c).trans hc

theorem component?_play_of_spares (h : Coherent b) (hc : b.component? c = some k)
    (spares : Spares c k.session acts) : (b.play acts).component? c = some k := by
  induction acts generalizing b with
  | nil => exact hc
  | cons a acts ih =>
      obtain ⟨hon, hclose⟩ := spares a List.mem_cons_self
      exact ih (h.apply a) (component?_apply_of_spares h hc hon hclose)
        fun a' ha' => spares a' (List.mem_cons_of_mem _ ha')

end Backend

/-! ## what updates come to -/

/-- What an update comes to, given what the adjustment makes of fields and changes: its result, and the
changes that are stored, if any are. -/
def editOf (hook : Fields → Fields → Except String Fields) (fields changes : Fields) :
    Except ComponentError Unit × Option Fields :=
  if changes.isEmpty then (.ok (), none)
  else match hook fields changes with
    | .error reason => (.error (.aborted reason), none)
    | .ok adjusted => (.ok (), if adjusted.isEmpty then none else some adjusted)

/-- What updates come to, one after another: their results, and the changes that are stored. -/
def editsOf (hook : Fields → Fields → Except String Fields) :
    Fields → List Fields → List (Except ComponentError Unit) × List Fields
  | _, [] => ([], [])
  | fields, changes :: rest =>
    let edit := editOf hook fields changes
    let later := editsOf hook (edit.2.toList.foldl applyChanges fields) rest
    (edit.1 :: later.1, edit.2.toList ++ later.2)

/-- Changes that are stored are not empty. -/
theorem ne_nil_of_editOf {hook : Fields → Fields → Except String Fields} {fields changes written : Fields}
    (h : (editOf hook fields changes).2 = some written) : written ≠ [] := by
  unfold editOf at h
  split at h
  · cases h
  · split at h
    · cases h
    · simp only [Option.ite_none_left_eq_some, Option.some.injEq] at h
      obtain ⟨hne, rfl⟩ := h
      simpa using hne

namespace Callbacks

variable (calls : Callbacks Code (Run Code Store))

/-- The adjustment of a component is a function of its fields and of the changes, and adds no list action.
What it does besides leaves the component alone. -/
structure AdjustsBy (c : ComponentId) (k : Component Code)
    (hook : Fields → Fields → Except String Fields) : Prop where
  returns : ∀ {b : Backend Code Store} {k' : Component Code}, b.component? c = some k' →
    k'.kind = k.kind → ∀ changes, ∃ acts,
      (calls.adjustKind k.kind c changes).Does b acts (hook k'.fields changes) ∧ Spares c k.session acts
  plain : ∀ {fields changes adjusted n}, hook fields changes = .ok adjusted → n ∈ adjusted.names →
    isActionKey n = true → n ∈ changes.names

/-- The listeners of a component return and leave the component alone. -/
def ListensAside (c : ComponentId) (k : Component Code) : Prop :=
  ∀ l ∈ k.listeners, ∀ (b : Backend Code Store) (changed : List String), ∃ acts,
    (calls.listener l.code c changed).Does b acts () ∧ Spares c k.session acts

/-- The same code with other listeners. -/
def hearing (listener : Code → ComponentId → List String → Run Code Store Unit) :
    Callbacks Code (Run Code Store) :=
  { calls with listener := listener }

/-- Updates with default options, one after another, with the result of each. -/
def updateAll (c : ComponentId) : List Fields → Run Code Store (List (Except ComponentError Unit))
  | [] => pure []
  | changes :: rest => do
    let result ← calls.update c changes {}
    let results ← updateAll c rest
    return result :: results

variable {calls} {b : Backend Code Store} {c : ComponentId} {k : Component Code}
  {hook : Fields → Fields → Except String Fields}

/-- What an adjustment makes of changes without list actions has none. -/
theorem AdjustsBy.plain_of_editOf (h : calls.AdjustsBy c k hook) {fields changes written : Fields}
    (plain : ∀ n ∈ changes.names, isActionKey n = false)
    (hedit : (editOf hook fields changes).2 = some written) :
    ∀ n ∈ written.names, isActionKey n = false := by
  intro n hn
  unfold editOf at hedit
  split at hedit
  · cases hedit
  · split at hedit
    · cases hedit
    · next adjusted hhook =>
      simp only [Option.ite_none_left_eq_some, Option.some.injEq] at hedit
      obtain ⟨-, rfl⟩ := hedit
      cases haction : isActionKey n with
      | false => rfl
      | true =>
          rw [plain n (h.plain hhook hn haction)] at haction
          cases haction

theorem AdjustsBy.does_adjusted (h : calls.AdjustsBy c k hook) {k' : Component Code}
    (hc : b.component? c = some k') (hkind : k'.kind = k.kind) (active : k'.phase = .active)
    (changes : Fields) : ∃ acts, Spares c k.session acts ∧ ∀ listener,
      ((calls.hearing listener).adjusted c changes).Does b acts
        ((hook k'.fields changes).mapError .aborted) := by
  obtain ⟨acts, hadjust, spares⟩ := h.returns hc hkind changes
  refine ⟨acts, spares, fun listener => Run.Does.read ?_⟩
  rw [hc]
  simp only [active, hkind]
  rw [← List.append_nil acts]
  refine Run.Does.bind (x := calls.adjustKind k.kind c changes) hadjust ?_
  cases hook k'.fields changes with
  | error reason => exact Run.does_pure _ _
  | ok adjusted => exact Run.does_pure _ _

/-- An update asks the adjustment first. If nothing is to be stored this is all; otherwise the changes are
stored, and then announced as the state says. Which listeners there are does not matter before. -/
theorem AdjustsBy.does_update (h : calls.AdjustsBy c k hook) {k' : Component Code}
    (hc : b.component? c = some k') (hkind : k'.kind = k.kind) (active : k'.phase = .active)
    (changes : Fields) : ∃ acts, Spares c k.session acts ∧ ∀ listener,
      ((editOf hook k'.fields changes).2 = none →
        ((calls.hearing listener).update c changes {}).Does b acts (editOf hook k'.fields changes).1) ∧
      ∀ {written delivery b' after}, (editOf hook k'.fields changes).2 = some written →
        (b.play acts).change c written {} = .ok (delivery, b') →
        ((calls.hearing listener).announceAny c delivery).Does b' after () →
          ((calls.hearing listener).update c changes {}).Does b (acts ++ .change c written {} :: after)
            (editOf hook k'.fields changes).1 := by
  cases hempty : changes.isEmpty with
  | true =>
      have hedit : editOf hook k'.fields changes = (.ok (), none) := by simp [editOf, hempty]
      refine ⟨[], fun _ => nofun, fun listener => ?_⟩
      simp only [hedit, update, hempty, if_true]
      exact ⟨fun _ => Run.does_pure b _, nofun⟩
  | false =>
      obtain ⟨acts, spares, hadjusted⟩ := h.does_adjusted hc hkind active changes
      refine ⟨acts, spares, fun listener => ?_⟩
      have hadjusted := hadjusted listener
      simp only [update, hempty, Bool.false_eq_true, if_false]
      cases hhook : hook k'.fields changes with
      | error reason =>
          have hedit : editOf hook k'.fields changes = (.error (.aborted reason), none) := by
            simp [editOf, hempty, hhook]
          rw [hhook] at hadjusted
          simp only [hedit]
          refine ⟨fun _ => ?_, nofun⟩
          rw [← List.append_nil acts]
          exact hadjusted.bind (Run.does_pure _ _)
      | ok adjusted =>
          rw [hhook] at hadjusted
          cases hnone : adjusted.isEmpty with
          | true =>
              have hedit : editOf hook k'.fields changes = (.ok (), none) := by
                simp [editOf, hempty, hhook, hnone]
              simp only [hedit]
              refine ⟨fun _ => ?_, nofun⟩
              rw [← List.append_nil acts]
              refine hadjusted.bind ?_
              simp only [Except.mapError, hnone, if_true]
              exact Run.does_pure _ _
          | false =>
              have hedit : editOf hook k'.fields changes = (.ok (), some adjusted) := by
                simp [editOf, hempty, hhook, hnone]
              simp only [hedit, reduceCtorEq, false_implies, true_and]
              intro written delivery b' after hwritten hchange hafter
              cases hwritten
              refine hadjusted.bind ?_
              simp only [Except.mapError, hnone, Bool.false_eq_true, if_false]
              refine Run.Does.step ?_
              have happly : (Act.change c adjusted {}).apply (b.play acts) = b' := by
                rw [Act.apply, hchange]
                rfl
              rw [hchange, happly, ← List.append_nil after]
              exact hafter.bind (Run.does_pure _ _)

theorem ListensAside.does_announce (h : calls.ListensAside c k) {ls : List (Listener Code)}
    (hls : ∀ l ∈ ls, l ∈ k.listeners) (b : Backend Code Store) (changed : List String) :
    ∃ acts, (calls.announce c changed ls).Does b acts () ∧ Spares c k.session acts := by
  induction ls generalizing b with
  | nil => exact ⟨[], Run.does_pure b (), fun _ => nofun⟩
  | cons l ls ih =>
      have hrest : ∀ l' ∈ ls, l' ∈ k.listeners := fun l' hl' => hls l' (List.mem_cons_of_mem _ hl')
      unfold announce
      split
      · obtain ⟨acts, hlistener, spares⟩ := h l (hls l List.mem_cons_self) b changed
        obtain ⟨more, hmore, spares'⟩ := ih hrest (b.play acts)
        refine ⟨acts ++ more, hlistener.bind hmore, fun a ha => ?_⟩
        obtain ha | ha := List.mem_append.1 ha
        · exact spares a ha
        · exact spares' a ha
      · exact ih hrest b

end Callbacks

/-! ## one update -/

namespace Backend

variable {b : Backend Code Store} {c : ComponentId} {k : Component Code}

theorem apply_change {changes : Fields} {options : UpdateOptions} {delivery : Option (Delivery Code)}
    {b' : Backend Code Store} (h : b.change c changes options = .ok (delivery, b')) :
    (Act.change c changes options).apply b = b' := by
  rw [Act.apply, h]
  rfl

/-- Changes of a component without a batch are told at once. -/
theorem change_of_unbatched (hc : b.component? c = some k) (active : k.phase = .active)
    (unbatched : k.batch = none) {changes : Fields} (plain : ∀ n ∈ changes.names, isActionKey n = false) :
    b.change c changes {} = .ok (some ⟨.ofPairs changes, {}, k.listeners⟩,
      b.tell c { k with fields := applyChanges k.fields changes }
        (some ⟨.ofPairs changes, {}, k.listeners⟩)) := by
  have hwrite : k.write c changes {} =
      .ok ({ k with fields := applyChanges k.fields changes },
        some ⟨.ofPairs changes, {}, k.listeners⟩) := by
    unfold Component.write
    rw [if_neg (by simp [active]), unbatched]
    simp only [resolve_of_plain _ _ plain, applyChanges_ofPairs]
    rfl
  rw [change, hc]
  simp only [hwrite]
  rfl

/-- Changes of a component with a batch are kept back. -/
theorem change_of_batched (hc : b.component? c = some k) (live : k.phase ≠ .destroyed)
    {holder : BatchHolder} {buffer : Fields} (batched : k.batch = some ⟨holder, buffer, {}⟩)
    {changes : Fields} (plain : ∀ n ∈ changes.names, isActionKey n = false) :
    b.change c changes {} = .ok (none, b.tell c
      { k with
        fields := applyChanges k.fields changes
        batch := some ⟨holder, buffer.putAll changes, {}⟩ } none) := by
  have hnone : changes.names.find? isActionKey = none := by
    rw [List.find?_eq_none]
    intro n hn
    simp [plain n hn]
  rw [change, hc]
  simp [Component.write, live, batched, Component.buffer, hnone, Except.map]

end Backend

namespace Callbacks

variable {calls : Callbacks Code (Run Code Store)} {b : Backend Code Store} {c : ComponentId}
  {k k' : Component Code} {hook : Fields → Fields → Except String Fields}

/-- An update of a component without a batch: what is stored is told at once. -/
theorem does_update_unbatched (coherent : Backend.Coherent b) (adjusts : calls.AdjustsBy c k hook)
    (listens : calls.ListensAside c k) (active : k.phase = .active) (unbatched : k.batch = none)
    {fields : Fields} (hc : b.component? c = some { k with fields := fields }) {changes : Fields}
    (plain : ∀ n ∈ changes.names, isActionKey n = false) : ∃ acts,
    (calls.update c changes {}).Does b acts (editOf hook fields changes).1 ∧
      (b.play acts).component? c = some { k with
        fields := (editOf hook fields changes).2.toList.foldl applyChanges fields } ∧
      (b.OpenAlong k.session acts → b.told c k.session acts =
        (editOf hook fields changes).2.toList.map fun written => .change c (.ofPairs written)) := by
  obtain ⟨before, spares, hupdate⟩ := adjusts.does_update hc rfl active changes
  obtain ⟨hnone, hsome⟩ := hupdate calls.listener
  have hbefore : (b.play before).component? c = some { k with fields := fields } :=
    Backend.component?_play_of_spares coherent hc spares
  cases hedit : (editOf hook fields changes).2 with
  | none => exact ⟨before, hnone hedit, hbefore, fun _ => Backend.told_of_spares spares⟩
  | some written =>
      have hchange := Backend.change_of_unbatched hbefore active unbatched
        (adjusts.plain_of_editOf plain hedit)
      have hact := Backend.apply_change hchange
      generalize hb' : Backend.tell (b.play before) c _ _ = b' at hchange hact
      obtain ⟨after, hafter, spares'⟩ := listens.does_announce (fun l hl => hl) b' _
      have hcoherent : Backend.Coherent b' := by
        rw [← hact]
        exact (coherent.play before).apply _
      have hc' : b'.component? c = some { k with fields := applyChanges fields written } := by
        rw [← hb', Backend.component?_tell, if_pos rfl]
      refine ⟨_, hsome hedit hchange hafter, ?_, fun hopen => ?_⟩
      · rw [Backend.play_append, Backend.play_cons, hact]
        exact Backend.component?_play_of_spares hcoherent hc' spares'
      · have hpoint : b'.isOpen k.session = true := by
          have := hopen.right [_] ⟨after, rfl⟩
          rwa [Backend.play_cons, hact] at this
        have hsent : ((Act.change c written {}).apply (b.play before)).sentTo k.session =
            (b.play before).sentTo k.session ++ [.change c (.ofPairs written)] := by
          rw [hact, ← hb', Backend.sentTo_tell_some, hb', if_pos ⟨rfl, rfl, hpoint⟩]
        rw [Backend.told_append, Backend.told_of_spares spares, Backend.told_cons_of_on rfl hsent,
          Backend.told_of_spares spares']
        rfl

/-- An update of a component with a batch: what is stored is kept back, and no listener is called. -/
theorem does_update_batched (coherent : Backend.Coherent b) (adjusts : calls.AdjustsBy c k hook)
    (active : k.phase = .active) {holder : BatchHolder} {fields buffer : Fields}
    (hc : b.component? c = some
      { k with fields := fields, batch := some ⟨holder, buffer, {}⟩ })
    {changes : Fields} (plain : ∀ n ∈ changes.names, isActionKey n = false) : ∃ acts,
    (∀ listener, ((calls.hearing listener).update c changes {}).Does b acts
      (editOf hook fields changes).1) ∧
      (b.play acts).component? c = some { k with
        fields := (editOf hook fields changes).2.toList.foldl applyChanges fields
        batch := some ⟨holder, (editOf hook fields changes).2.toList.foldl .putAll buffer, {}⟩ } ∧
      b.told c k.session acts = [] := by
  obtain ⟨before, spares, hupdate⟩ := adjusts.does_update hc rfl active changes
  have hbefore : (b.play before).component? c = _ := Backend.component?_play_of_spares coherent hc spares
  cases hedit : (editOf hook fields changes).2 with
  | none =>
      exact ⟨before, fun listener => (hupdate listener).1 hedit, hbefore,
        Backend.told_of_spares spares⟩
  | some written =>
      have hchange := Backend.change_of_batched hbefore (by simp [active]) rfl
        (adjusts.plain_of_editOf plain hedit)
      have hact := Backend.apply_change hchange
      refine ⟨before ++ [.change c written {}],
        fun listener => (hupdate listener).2 hedit hchange (Run.does_pure _ ()), ?_, ?_⟩
      · rw [Backend.play_append, Backend.play_cons, hact]
        exact (Backend.component?_tell _ c c _ none).trans (if_pos rfl)
      · have hsent : ((Act.change c written {}).apply (b.play before)).sentTo k.session =
            (b.play before).sentTo k.session ++ [] := by
          rw [hact, List.append_nil]
          rfl
        rw [Backend.told_append, Backend.told_of_spares spares, Backend.told_cons_of_on rfl hsent]
        rfl

/-! ## all updates -/

theorem does_updateAll_unbatched (coherent : Backend.Coherent b) (adjusts : calls.AdjustsBy c k hook)
    (listens : calls.ListensAside c k) (active : k.phase = .active) (unbatched : k.batch = none)
    {fields : Fields} (hc : b.component? c = some { k with fields := fields }) {sets : List Fields}
    (plain : ∀ changes ∈ sets, ∀ n ∈ changes.names, isActionKey n = false) : ∃ acts,
    (calls.updateAll c sets).Does b acts (editsOf hook fields sets).1 ∧
      (b.play acts).component? c = some { k with
        fields := (editsOf hook fields sets).2.foldl applyChanges fields } ∧
      (b.OpenAlong k.session acts → b.told c k.session acts =
        (editsOf hook fields sets).2.map fun written => .change c (.ofPairs written)) := by
  induction sets generalizing b fields with
  | nil => exact ⟨[], Run.does_pure b _, hc, fun _ => rfl⟩
  | cons changes sets ih =>
      have hplain := List.forall_mem_cons.1 plain
      obtain ⟨acts, hdoes, hafter, htold⟩ :=
        does_update_unbatched coherent adjusts listens active unbatched hc hplain.1
      obtain ⟨more, hmore, hlast, htold'⟩ := ih (coherent.play acts) hafter hplain.2
      refine ⟨acts ++ more, hdoes.bind (hmore.bind_pure _), ?_, fun hopen => ?_⟩
      · simpa [editsOf, Backend.play_append] using hlast
      · rw [Backend.told_append, htold hopen.left, htold' hopen.right, editsOf, List.map_append]

theorem does_updateAll_batched (coherent : Backend.Coherent b) (adjusts : calls.AdjustsBy c k hook)
    (active : k.phase = .active) {holder : BatchHolder} {fields buffer : Fields}
    (hc : b.component? c = some { k with fields := fields, batch := some ⟨holder, buffer, {}⟩ })
    {sets : List Fields} (plain : ∀ changes ∈ sets, ∀ n ∈ changes.names, isActionKey n = false) :
    ∃ acts, (∀ listener, ((calls.hearing listener).updateAll c sets).Does b acts
        (editsOf hook fields sets).1) ∧
      (b.play acts).component? c = some { k with
        fields := (editsOf hook fields sets).2.foldl applyChanges fields
        batch := some ⟨holder, (editsOf hook fields sets).2.foldl .putAll buffer, {}⟩ } ∧
      b.told c k.session acts = [] := by
  induction sets generalizing b fields buffer with
  | nil => exact ⟨[], fun _ => Run.does_pure b _, hc, rfl⟩
  | cons changes sets ih =>
      have hplain := List.forall_mem_cons.1 plain
      obtain ⟨acts, hdoes, hafter, htold⟩ :=
        does_update_batched coherent adjusts active hc hplain.1
      obtain ⟨more, hmore, hlast, htold'⟩ := ih (coherent.play acts) hafter hplain.2
      refine ⟨acts ++ more, fun listener => (hdoes listener).bind ((hmore listener).bind_pure _), ?_, ?_⟩
      · simpa [editsOf, Backend.play_append] using hlast
      · rw [Backend.told_append, htold, htold']
        rfl

/-! ## batches -/

/-- Listeners are called one after another, those that want to be. -/
theorem announce_eq_forM (calls : Callbacks Code (Run Code Store)) (c : ComponentId)
    (changed : List String) (ls : List (Listener Code)) :
    calls.announce c changed ls =
      (ls.filter (·.wants changed)).forM fun l => calls.listener l.code c changed := by
  induction ls with
  | nil => rfl
  | cons l ls ih =>
      unfold announce
      split
      · next hwants =>
        rw [List.filter_cons, if_pos hwants, ih]
        rfl
      · next hwants =>
        rw [List.filter_cons, if_neg hwants, ih]

end Callbacks

/-- How a batch is used: through a handle of the program, or as long as an operation lasts. -/
inductive BatchForm where
  | handle
  | scope

namespace BatchForm

/-- The act that opens the batch. -/
def opening (c : ComponentId) : BatchForm → Act Code Store
  | .handle => .beginBatch c {}
  | .scope => .openBatch c .scope {}

/-- The holder of a batch that is opened now. -/
def holder (b : Backend Code Store) : BatchForm → BatchHolder
  | .handle => .handle b.nextBatch
  | .scope => .scope

end BatchForm

namespace Callbacks

/-- Updates with default options inside a batch that is then committed. -/
def batched (calls : Callbacks Code (Run Code Store)) (c : ComponentId) (sets : List Fields) :
    BatchForm → Run Code Store (Except ComponentError (List (Except ComponentError Unit)))
  | .handle => do
    match ← Run.step (.beginBatch c {}) fun b => (b.beginBatch c {}).map (·.1) with
    | .error e => return .error e
    | .ok number =>
      let results ← calls.updateAll c sets
      calls.commit c (.handle number)
      return .ok results
  | .scope => calls.batch c id do
    let results ← calls.updateAll c sets
    return .ok results

variable {calls : Callbacks Code (Run Code Store)} {b : Backend Code Store} {c : ComponentId}
  {k k' : Component Code} {hook : Fields → Fields → Except String Fields}

/-- A batch can be opened on a component that is not destroyed and has none. -/
theorem openBatch_of_unbatched (hc : b.component? c = some k) (live : k.phase ≠ .destroyed)
    (unbatched : k.batch = none) (holder : BatchHolder) :
    b.openBatch c holder {} =
      .ok (b.setComponent c { k with batch := some ⟨holder, [], {}⟩ }) := by
  rw [Backend.openBatch, hc]
  simp [Component.openBatch, live, unbatched, Except.map]

/-- Opening a batch tells nothing. -/
theorem opened (form : BatchForm) (hc : b.component? c = some k) (active : k.phase = .active)
    (unbatched : k.batch = none) :
    ((form.opening c).apply b).component? c =
        some { k with batch := some ⟨form.holder b, [], {}⟩ } ∧
      ∀ s, ((form.opening c).apply b).sentTo s = b.sentTo s := by
  have hopen := openBatch_of_unbatched hc (by simp [active]) unbatched (form.holder b)
  have hset := b.component?_setComponent c c { k with batch := some ⟨form.holder b, [], {}⟩ }
  rw [if_pos rfl] at hset
  cases form with
  | handle =>
      have hact : (BatchForm.handle.opening c).apply b = { b.setComponent c
          { k with batch := some ⟨BatchForm.handle.holder b, [], {}⟩ } with
          nextBatch := b.nextBatch + 1 } := by
        rw [BatchForm.opening, Act.apply, Backend.beginBatch]
        rw [BatchForm.holder] at hopen
        rw [hopen]
        rfl
      rw [hact]
      exact ⟨hset, fun _ => rfl⟩
  | scope =>
      have hact : (BatchForm.scope.opening c).apply b = b.setComponent c
          { k with batch := some ⟨BatchForm.scope.holder b, [], {}⟩ } := by
        rw [BatchForm.opening, Act.apply]
        rw [BatchForm.holder] at hopen
        rw [hopen]
        rfl
      rw [hact]
      exact ⟨hset, fun _ => rfl⟩

/-- A batch of updates opens the batch, makes the updates and commits. -/
theorem finish_batched (form : BatchForm) (hc : b.component? c = some k) (active : k.phase = .active)
    (unbatched : k.batch = none) {sets : List Fields} {updates : List (Act Code Store)}
    {results : List (Except ComponentError Unit)}
    (h : (calls.updateAll c sets).Does ((form.opening c).apply b) updates results) :
    (calls.batched c sets form).acts b = form.opening c :: updates ++
        (calls.commit c (form.holder b)).acts (b.play (form.opening c :: updates)) ∧
      ∀ {more}, (calls.commit c (form.holder b)).Does (b.play (form.opening c :: updates)) more () →
        (calls.batched c sets form).Does b (form.opening c :: updates ++ more) (.ok results) := by
  have hopen := openBatch_of_unbatched hc (by simp [active]) unbatched (form.holder b)
  cases form with
  | handle =>
      have hbegin : (b.beginBatch c {}).map (·.1) = .ok b.nextBatch := by
        rw [BatchForm.holder] at hopen
        rw [Backend.beginBatch, hopen]
        rfl
      unfold batched
      refine ⟨?_, fun {more} hcommit => ?_⟩
      · rw [Run.acts_step_bind, hbegin]
        refine congrArg (BatchForm.handle.opening c :: ·) ?_
        refine (h.acts_bind _).trans ?_
        rw [Run.acts_bind_pure]
        rfl
      · refine Run.Does.step ?_
        rw [hbegin]
        exact h.bind (hcommit.bind_pure _)
  | scope =>
      have hattempt : (b.openBatch c .scope {}).map (fun _ => ()) = .ok () := by
        rw [BatchForm.holder] at hopen
        rw [hopen]
        rfl
      have hbody : (Run.onPanic (calls.updateAll c sets >>= fun results =>
          (pure (.ok results) : Run Code Store (Except ComponentError _))) (.drop c .scope)).Does
          ((BatchForm.scope.opening c).apply b) updates (.ok results) := by
        rw [← List.append_nil updates]
        exact Run.Does.andThen (h.bind_pure _) ⟨rfl, rfl⟩
      unfold batched Callbacks.batch
      refine ⟨?_, fun {more} hcommit => ?_⟩
      · refine (Run.acts_step_bind _ _ _ _).trans ?_
        rw [hattempt]
        refine congrArg (BatchForm.scope.opening c :: ·) ?_
        refine (hbody.acts_bind _).trans ?_
        dsimp only
        rw [Run.acts_bind_pure]
        rfl
      · refine Run.Does.step ?_
        rw [hattempt]
        exact hbody.bind (hcommit.bind_pure _)

/-! ## the commit -/

/-- A commit closes the batch and tells what it kept back as one change, if there is anything. -/
theorem commit_of_batched {holder : BatchHolder} {buffer : Fields} (hc : b.component? c = some k)
    (batched : k.batch = some ⟨holder, buffer, {}⟩) {delivery : Option (Delivery Code)}
    (hdelivery : delivery = if buffer.isEmpty then none else some ⟨buffer, {}, k.listeners⟩) :
    b.commit c holder = (delivery, b.tell c { k with batch := none } delivery) := by
  have hof : k.batchOf? holder = some ⟨holder, buffer, {}⟩ := by
    simp [Component.batchOf?, batched, Option.filter]
  rw [Backend.commit, hc, hdelivery]
  simp only [Component.closeBatch, hof]
  rfl

/-- Behind the commit the listeners are called that want to hear of what the batch kept back. -/
theorem acts_commit (calls : Callbacks Code (Run Code Store)) {holder : BatchHolder} {buffer : Fields}
    (hc : b.component? c = some k) (batched : k.batch = some ⟨holder, buffer, {}⟩) :
    (calls.commit c holder).acts b = .commit c holder ::
      if buffer.isEmpty then []
      else ((k.listeners.filter (·.wants buffer.names)).forM fun l =>
        calls.listener l.code c buffer.names).acts ((Act.commit c holder).apply b) := by
  unfold commit
  rw [Run.acts_step_bind, commit_of_batched hc batched rfl]
  refine congrArg (Act.commit c holder :: ·) ?_
  cases buffer.isEmpty with
  | true => rfl
  | false =>
      simp only [Bool.false_eq_true, if_false, announceAny]
      rw [announce_eq_forM]

/-- When the listeners leave the component alone, a commit tells what the batch kept back and nothing else. -/
theorem does_commit (coherent : Backend.Coherent b) (listens : calls.ListensAside c k)
    (unbatched : k.batch = none) {holder : BatchHolder} {fields buffer : Fields}
    (hc : b.component? c = some { k with fields := fields, batch := some ⟨holder, buffer, {}⟩ }) :
    ∃ more, (calls.commit c holder).Does b (.commit c holder :: more) () ∧
      (b.play (.commit c holder :: more)).component? c = some { k with fields := fields } ∧
      (b.OpenAlong k.session (.commit c holder :: more) →
        b.told c k.session (.commit c holder :: more) =
          if buffer.isEmpty then [] else [.change c buffer]) := by
  have hclose := commit_of_batched hc rfl rfl
  generalize hdelivery : (if buffer.isEmpty = true then none else _) = delivery at hclose
  have hact : (Act.commit c holder).apply b = b.tell c { k with fields := fields } delivery := by
    rw [Act.apply, hclose, ← unbatched]
  have hcoherent := coherent.apply (Act.commit c holder)
  obtain ⟨more, hmore, spares⟩ : ∃ more, (calls.announceAny c delivery).Does
      ((Act.commit c holder).apply b) more () ∧ Spares c k.session more := by
    rw [← hdelivery]
    split
    · exact ⟨[], Run.does_pure _ (), fun _ hmem => absurd hmem List.not_mem_nil⟩
    · exact listens.does_announce (fun l hl => hl) _ buffer.names
  have hc' : ((Act.commit c holder).apply b).component? c = some { k with fields := fields } := by
    rw [hact, Backend.component?_tell, if_pos rfl]
  refine ⟨more, Run.Does.step ?_, ?_, fun hopen => ?_⟩
  · rw [hclose]
    exact hmore
  · rw [Backend.play_cons]
    exact Backend.component?_play_of_spares hcoherent hc' spares
  · have hpoint : ((Act.commit c holder).apply b).isOpen k.session = true :=
      hopen [Act.commit c holder] ⟨more, rfl⟩
    have hsent : ((Act.commit c holder).apply b).sentTo k.session =
        b.sentTo k.session ++ if buffer.isEmpty then [] else [.change c buffer] := by
      cases hempty : buffer.isEmpty with
      | true =>
          rw [hempty, if_pos rfl] at hdelivery
          rw [hact, ← hdelivery, if_pos rfl, List.append_nil]
          rfl
      | false =>
          rw [hempty, if_neg Bool.false_ne_true] at hdelivery
          rw [hact] at hpoint ⊢
          rw [← hdelivery] at hpoint ⊢
          rw [Backend.sentTo_tell_some, if_pos ⟨rfl, rfl, hpoint⟩, if_neg Bool.false_ne_true]
    rw [Backend.told_cons_of_on rfl hsent, Backend.told_of_spares spares, List.append_nil]

end Callbacks

/-! ## both ways -/

/-- The changes that updates store are not empty. -/
theorem ne_nil_of_mem_editsOf {hook : Fields → Fields → Except String Fields} {fields written : Fields}
    {sets : List Fields} (h : written ∈ (editsOf hook fields sets).2) : written ≠ [] := by
  induction sets generalizing fields with
  | nil => cases h
  | cons changes sets ih =>
      obtain h | h := List.mem_append.1 h
      · exact ne_nil_of_editOf (Option.mem_toList.1 h)
      · exact ih h

theorem ofPairs_editsOf_eq_nil_iff {hook : Fields → Fields → Except String Fields} {fields : Fields}
    {sets : List Fields} :
    Fields.ofPairs (editsOf hook fields sets).2.flatten = [] ↔ (editsOf hook fields sets).2 = [] := by
  rw [Fields.ofPairs_eq_nil_iff, List.flatten_eq_nil_iff]
  refine ⟨fun h => ?_, fun h => by simp [h]⟩
  cases hwritten : (editsOf hook fields sets).2 with
  | nil => rfl
  | cons written rest =>
      have hmem : written ∈ (editsOf hook fields sets).2 := by simp [hwritten]
      exact absurd (h written hmem) (ne_nil_of_mem_editsOf hmem)

/-- A batch is its updates. Made one after another or inside a batch, the updates of an active component have
the same results and leave the component the same. What the commit tells is one change, or nothing when
nothing was kept back: each name stands where it was written first, with the value that was written last, and
the change makes of every state of the other end what the changes told one by one make of it. The listeners
that want to hear of these names are called once, by the commit; before it no listener is called. -/
theorem batch_eq_updates (calls : Callbacks Code (Run Code Store)) (form : BatchForm)
    {b : Backend Code Store} (coherent : b.Coherent) {c : ComponentId} {k : Component Code}
    (component : b.component? c = some k) (active : k.phase = .active) (unbatched : k.batch = none)
    {hook : Fields → Fields → Except String Fields} (adjusts : calls.AdjustsBy c k hook)
    (listens : calls.ListensAside c k) {sets : List Fields}
    (plain : ∀ changes ∈ sets, ∀ n ∈ changes.names, isActionKey n = false)
    (openUpdates : b.OpenAlong k.session ((calls.updateAll c sets).acts b))
    (openBatch : b.OpenAlong k.session ((calls.batched c sets form).acts b)) :
    ∃ (results : List (Except ComponentError Unit)) (fields : Fields) (frames : List Fields)
      (whole : Fields),
      ((calls.updateAll c sets).ending b = .value results ∧
        (calls.batched c sets form).ending b = .value (.ok results)) ∧
      (((calls.updateAll c sets).last b).component? c = some { k with fields := fields } ∧
        ((calls.batched c sets form).last b).component? c = some { k with fields := fields }) ∧
      (b.told c k.session ((calls.updateAll c sets).acts b) = frames.map (.change c) ∧
        b.told c k.session ((calls.batched c sets form).acts b) =
          if frames.isEmpty then [] else [.change c whole]) ∧
      (whole.names = (Fields.names frames.flatten).eraseDups ∧
        ∀ n, whole.get? n = Fields.get? frames.flatten.reverse n) ∧
      (∀ mirror, applyChanges mirror whole = frames.foldl applyChanges mirror) ∧
      ∃ updates holder, ∀ listener,
        ((calls.hearing listener).batched c sets form).acts b = updates ++ .commit c holder ::
          if frames.isEmpty then []
          else ((k.listeners.filter (·.wants whole.names)).forM fun l =>
            listener l.code c whole.names).acts (b.play (updates ++ [.commit c holder])) := by
  obtain ⟨acts, hdoes, hlast, htold⟩ := Callbacks.does_updateAll_unbatched coherent adjusts listens
    active unbatched component plain
  obtain ⟨hopened, hquiet⟩ := Callbacks.opened form component active unbatched
  obtain ⟨updates, hupdates, hstored, hsilent⟩ := Callbacks.does_updateAll_batched
    (coherent.apply (form.opening c)) adjusts active hopened plain
  rw [← Fields.ofPairs_flatten] at hstored
  have hbatched := fun listener =>
    Callbacks.finish_batched form component active unbatched (hupdates listener)
  obtain ⟨more, hcommit, hcommitted, htold'⟩ := Callbacks.does_commit
    ((coherent.apply (form.opening c)).play updates) listens unbatched hstored
  have hdoes' : (calls.batched c sets form).Does b _ _ := (hbatched calls.listener).2 hcommit
  rw [hdoes.acts_eq] at openUpdates
  rw [hdoes'.acts_eq] at openBatch
  have hcommitting : ((b.play (form.opening c :: updates))).OpenAlong k.session _ := openBatch.right
  have hframes := Fields.ofPairs_flatten_map (editsOf hook k.fields sets).2
  have hempty : (Fields.ofPairs (editsOf hook k.fields sets).2.flatten).isEmpty =
      ((editsOf hook k.fields sets).2.map Fields.ofPairs).isEmpty := by
    rw [Bool.eq_iff_iff, List.isEmpty_iff, List.isEmpty_iff, List.map_eq_nil_iff,
      ofPairs_editsOf_eq_nil_iff]
  refine ⟨_, (editsOf hook k.fields sets).2.foldl applyChanges k.fields,
    (editsOf hook k.fields sets).2.map .ofPairs, .ofPairs (editsOf hook k.fields sets).2.flatten,
    ⟨hdoes.ending_eq, hdoes'.ending_eq⟩, ⟨?_, ?_⟩, ⟨?_, ?_⟩, ⟨?_, ?_⟩, ?_, form.opening c :: updates,
    form.holder b, fun listener => ?_⟩
  · rw [hdoes.last_eq, hlast]
  · rw [hdoes'.last_eq, List.cons_append, Backend.play_cons, Backend.play_append, hcommitted]
  · rw [hdoes.acts_eq, htold openUpdates, List.map_map]
    rfl
  · have hopening : ((form.opening c).apply b).sentTo k.session = b.sentTo k.session ++ [] := by
      rw [hquiet, List.append_nil]
    have hon : (form.opening c : Act Code Store).on? = some c := by cases form <;> rfl
    rw [hdoes'.acts_eq, List.cons_append, Backend.told_cons_of_on hon hopening, Backend.told_append, hsilent,
      htold' hcommitting, hempty]
    rfl
  · rw [← hframes, Fields.names_ofPairs]
  · intro n
    rw [← hframes, Fields.get?_ofPairs]
  · intro mirror
    rw [← hframes, applyChanges_flatten]
  · rw [(hbatched listener).1]
    refine congrArg (form.opening c :: updates ++ ·) ?_
    rw [Backend.play_append]
    refine (Callbacks.acts_commit _ hstored rfl).trans ?_
    rw [hempty]
    rfl

/-! ## a component that can be locked -/

namespace Sample

/-- Refuses changes once there is a lock, and marks what it lets pass. -/
def locking (fields changes : Fields) : Except String Fields :=
  if fields.has "locked" then .error "locked" else .ok (changes.put "touched" (.bool true))

/-- Components that can be locked, and listeners that note what changed. -/
def lockingCalls : Callbacks Unit (Run Unit Unit) where
  view _ := view ⟨"app", "", "View"⟩ ""
  init _ _ := pure (.ok ())
  adjust _ c changes := Run.read fun b => locking (b.fields c) changes
  request _ _ _ := pure (.ok ())
  listener _ _ changed := Run.modify (.note (.arr (changed.map .str)))
  task _ := pure ()
  body _ := pure (.ok .null)

/-- An active component that can be locked, with a listener for one of its fields. -/
def unlocked : Backend Unit Unit :=
  (Backend.init ()).play
    [.openSession {} {}, .enroll 1 (.custom ()) ⟨⟨"app", "", "View"⟩, "View", [], "", ""⟩, .activate 1,
      .listen 1 (some ["b"]) ()]

/-- Changes with a name twice; the last ones come after the lock. -/
def lockingSets : List Fields :=
  [[("a", .int 1)], [], [("b", .int 2)], [("a", .int 3), ("locked", .null)], [("b", .int 4)]]

theorem adjustsBy_locking (k : Component Unit) (hkind : k.kind = .custom ()) :
    lockingCalls.AdjustsBy 1 k locking where
  returns {b k'} hc _ changes := by
    refine ⟨[], ⟨by rw [hkind]; rfl, ?_⟩, fun _ => nofun⟩
    have hfields : b.fields 1 = k'.fields := by rw [Backend.fields, hc]; rfl
    rw [hkind, ← hfields]
    rfl
  plain {fields changes adjusted n} h hn haction := by
    unfold locking at h
    split at h
    · cases h
    · cases h
      obtain rfl | hn := Fields.mem_names_put.1 hn
      · have hplain : isActionKey "touched" = false := by decide
        rw [hplain] at haction
        cases haction
      · exact hn

theorem listensAside_locking (k : Component Unit) : lockingCalls.ListensAside 1 k := by
  intro l _ b changed
  refine ⟨_, Run.does_step _ _ b, fun a ha => ?_⟩
  obtain rfl := List.mem_singleton.1 ha
  exact ⟨nofun, nofun⟩

end Sample

/-- The component is locked by the fourth update; the batch tells the others at once. -/
theorem batch_locking :
    (∃ results, (Sample.lockingCalls.updateAll 1 Sample.lockingSets).ending Sample.unlocked =
        .value results ∧
      (Sample.lockingCalls.batched 1 Sample.lockingSets .handle).ending Sample.unlocked =
        .value (.ok results)) ∧
      Sample.unlocked.told 1 1
          ((Sample.lockingCalls.batched 1 Sample.lockingSets .handle).acts Sample.unlocked) =
        [.change 1 [("a", .int 3), ("touched", .bool true), ("b", .int 2), ("locked", .null)]] := by
  have hopen : ∀ acts : List (Act Unit Unit),
      (∀ pre ∈ acts.inits, (Sample.unlocked.play pre).isOpen 1 = true) →
        Sample.unlocked.OpenAlong 1 acts :=
    fun acts h pre hpre => h pre ((List.mem_inits pre acts).2 hpre)
  obtain ⟨results, -, -, -, hresults, -⟩ := batch_eq_updates Sample.lockingCalls .handle
    (Backend.coherent_play () _) (b := Sample.unlocked) (c := 1) rfl rfl rfl
    (Sample.adjustsBy_locking _ rfl) (Sample.listensAside_locking _)
    (show ∀ changes ∈ Sample.lockingSets, _ by decide) (hopen _ (by decide +kernel)) (hopen _ (by decide +kernel))
  exact ⟨⟨results, hresults⟩, rfl⟩

end ViewSync
