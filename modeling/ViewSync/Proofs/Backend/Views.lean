import Mathlib.Data.List.Nodup
import ViewSync.Proofs.Backend.Coherent
import ViewSync.Proofs.Backend.Execute

/-!
# ViewSync.Proofs.Backend.Views

How views are made known to the other end. A session tells a view when the first component uses it, and
keeps what it told under the reference of the view; the other end keeps it under the text of the reference.
In every run the views told are those kept, in their order (`Published`). So every new component is preceded
by exactly one definition of its view exactly when no two references in use have one text, and the digests
tell the sources of views with one reference apart (`registered_iff_distinguished`). The text of a reference
does not determine the reference: a double colon may be part of a module path.
-/

namespace ViewSync

variable {Code Store α : Type}

/-! ## messages that introduce something -/

/-- Whether a message makes a view or a component known. -/
def Message.introduces : Message → Bool
  | .define .. => true
  | .create .. => true
  | _ => false

/-- The texts of references under which views were told, in order. -/
def definedRefs (ms : List Message) : List String :=
  ms.filterMap fun
    | .define ref _ _ => some ref
    | _ => none

theorem definedRefs_append (ms more : List Message) :
    definedRefs (ms ++ more) = definedRefs ms ++ definedRefs more :=
  List.filterMap_append

theorem definedRefs_eq_nil {ms : List Message} (h : ∀ m ∈ ms, m.introduces = false) :
    definedRefs ms = [] := by
  rw [definedRefs, List.filterMap_eq_nil_iff]
  intro m hm
  have hm' := h m hm
  cases m with
  | define => cases hm'
  | _ => rfl

theorem mem_definedRefs {ms : List Message} {ref : String} :
    ref ∈ definedRefs ms ↔ ∃ name source, .define ref name source ∈ ms := by
  rw [definedRefs, List.mem_filterMap]
  constructor
  · intro hmem
    obtain ⟨m, hm, href⟩ := hmem
    cases m with
    | define viewRef name source =>
        cases href
        exact ⟨name, source, hm⟩
    | _ => cases href
  · intro hdefine
    obtain ⟨name, source, hm⟩ := hdefine
    exact ⟨_, hm, rfl⟩

/-- A text under which one view was told stands for one source. -/
theorem source_eq_of_nodup {ms : List Message} (h : (definedRefs ms).Nodup)
    {ref name name' source source' : String} (hm : .define ref name source ∈ ms)
    (hm' : .define ref name' source' ∈ ms) : source = source' := by
  induction ms with
  | nil => cases hm
  | cons m ms ih =>
      rw [← List.singleton_append, definedRefs_append] at h
      have hrest := (List.nodup_append.1 h).2.1
      have hapart : ∀ {name source : String}, m = .define ref name source → ref ∉ definedRefs ms := by
        intro name source heq
        subst heq
        exact (List.nodup_cons.1 h).1
      obtain hm | hm := List.mem_cons.1 hm
      · obtain hm' | hm' := List.mem_cons.1 hm'
        · rw [← hm] at hm'
          cases hm'
          rfl
        · exact absurd (mem_definedRefs.2 ⟨_, _, hm'⟩) (hapart hm.symm)
      · obtain hm' | hm' := List.mem_cons.1 hm'
        · exact absurd (mem_definedRefs.2 ⟨_, _, hm⟩) (hapart hm'.symm)
        · exact ih hrest hm hm'

/-- What comes behind and is something else does not matter for what was sent before a message. -/
theorem prefix_of_prefix_append {γ : Type} {before l more : List γ} {x : γ}
    (h : before ++ [x] <+: l ++ more) (hx : x ∉ more) : before ++ [x] <+: l := by
  induction more using List.reverseRecOn with
  | nil => rwa [List.append_nil] at h
  | append_singleton more y ih =>
      rw [← List.append_assoc] at h
      obtain heq | h := List.prefix_concat_iff.1 h
      · obtain ⟨-, hxy⟩ := List.append_inj' heq rfl
        cases hxy
        exact absurd (by simp) hx
      · exact ih h fun hmem => hx (List.mem_append_left _ hmem)

namespace Backend

/-! ## views in use -/

/-- A session has a component of some kind. -/
def Hosts (b : Backend Code Store) (s : SessionId) (c : ComponentId) (kind : Kind Code) : Prop :=
  ∃ k, b.component? c = some k ∧ k.session = s ∧ k.kind = kind

variable (views : Kind Code → ViewType)

/-- A component of a session has the compiled view. -/
def Uses (b : Backend Code Store) (s : SessionId) (d : ViewDefinition) : Prop :=
  ∃ c kind, b.Hosts s c kind ∧ (views kind).definition.1 = .ok d

/-- No view was told twice under one text, and in front of every new component exactly one view was told
under its text, with the compiled source of the view of the component. -/
structure Registered (b : Backend Code Store) (s : SessionId) : Prop where
  once : (definedRefs (b.sentTo s)).Nodup
  defined : ∀ {before id ref}, before ++ [.create id ref] <+: b.sentTo s →
    (definedRefs before).count ref = 1 ∧ ∃ kind d name, b.Hosts s id kind ∧
      (views kind).definition.1 = .ok d ∧ .define ref name d.source ∈ before

/-- Of the views in use, references with one text are one reference, and digests tell the sources of views
with one reference apart. -/
structure Distinguished (b : Backend Code Store) (s : SessionId) : Prop where
  references : ∀ {d d'}, Uses views b s d → Uses views b s d' →
    d.viewRef.render = d'.viewRef.render → d.viewRef = d'.viewRef
  digests : ∀ {d d'}, Uses views b s d → Uses views b s d' → d.viewRef = d'.viewRef →
    d.digest = d'.digest → d.source = d'.source

/-- The view of a kind, and the view that was told under its reference. -/
structure Backed (b : Backend Code Store) (s : SessionId) (kind : Kind Code)
    (d d₀ : ViewDefinition) : Prop where
  compiled : (views kind).definition.1 = .ok d
  kept : (b.session s).views.get? d.viewRef = some d₀
  digest : d₀.digest = d.digest

/-- The views that a session keeps are those that it told, and its components use them. -/
structure Published (b : Backend Code Store) (s : SessionId) : Prop where
  nodup : (b.session s).views.keys.Nodup
  defines : definedRefs (b.sentTo s) = (b.session s).views.keys.map ViewRef.render
  kept : ∀ {r d}, (b.session s).views.get? r = some d →
    d.viewRef = r ∧ Uses views b s d ∧ .define r.render d.name d.source ∈ b.sentTo s
  hosted : ∀ {c kind}, b.Hosts s c kind → ∃ d d₀ before, Backed views b s kind d d₀ ∧
    before ++ [.create c d.viewRef.render] <+: b.sentTo s
  created : ∀ {before id ref}, before ++ [.create id ref] <+: b.sentTo s →
    ∃ kind d d₀, b.Hosts s id kind ∧ Backed views b s kind d d₀ ∧ ref = d.viewRef.render ∧
      .define ref d₀.name d₀.source ∈ before

variable {views} {b b' : Backend Code Store} {s : SessionId} {a : Act Code Store}

theorem published_init (store : Store) : Published views (init store : Backend Code Store) s where
  nodup := List.nodup_nil
  defines := rfl
  kept h := by cases h
  hosted := by
    intro c kind hhost
    obtain ⟨k, hk, -⟩ := hhost
    cases hk
  created h := by simp [sentTo, init] at h

/-- Nothing changes for a session when its components keep their kinds, its views stay, and what it sends
introduces nothing. -/
theorem Published.of_same (h : Published views b s)
    (hosts : ∀ c kind, b'.Hosts s c kind ↔ b.Hosts s c kind)
    (kept : (b'.session s).views = (b.session s).views) {more : List Message}
    (sent : b'.sentTo s = b.sentTo s ++ more) (plain : ∀ m ∈ more, m.introduces = false) :
    Published views b' s := by
  have huses : ∀ {d}, Uses views b s d → Uses views b' s d := by
    intro d hd
    obtain ⟨c, kind, hhosts, hcompiled⟩ := hd
    exact ⟨c, kind, (hosts c kind).2 hhosts, hcompiled⟩
  have hbacked : ∀ {kind d d₀}, Backed views b s kind d d₀ → Backed views b' s kind d d₀ :=
    fun hb => ⟨hb.compiled, kept ▸ hb.kept, hb.digest⟩
  refine ⟨kept ▸ h.nodup, ?_, fun hget => ?_, fun hhosts => ?_, fun hbefore => ?_⟩
  · rw [sent, definedRefs_append, definedRefs_eq_nil plain, List.append_nil, kept, h.defines]
  · obtain ⟨href, hused, hdefine⟩ := h.kept (kept ▸ hget)
    exact ⟨href, huses hused, sent ▸ List.mem_append_left _ hdefine⟩
  · obtain ⟨d, d₀, before, hb, hbefore⟩ := h.hosted ((hosts _ _).1 hhosts)
    exact ⟨d, d₀, before, hbacked hb, sent ▸ hbefore.trans (List.prefix_append _ _)⟩
  · rw [sent] at hbefore
    have hold := prefix_of_prefix_append hbefore fun hmem => by
      have hplain := plain _ hmem
      cases hplain
    obtain ⟨kind, d, d₀, hhosts, hb, href, hdefine⟩ := h.created hold
    exact ⟨kind, d, d₀, (hosts _ _).2 hhosts, hbacked hb, href, hdefine⟩

/-! ## a component that is created -/

/-- What a session keeps and has told when a component is about to be made known: the views it kept before,
and the view of the component under its reference. -/
structure Prepared (views : Kind Code → ViewType) (b : Backend Code Store) (s : SessionId)
    (definition : ViewDefinition) (table : Table ViewRef ViewDefinition) (told : List Message) :
    Prop where
  nodup : table.keys.Nodup
  defines : definedRefs told = table.keys.map ViewRef.render
  grown : ∀ {r d}, (b.session s).views.get? r = some d → table.get? r = some d
  kept : ∀ {r d}, table.get? r = some d → d.viewRef = r ∧ .define r.render d.name d.source ∈ told ∧
    (Uses views b s d ∨ d = definition)
  backed : ∃ d₀, table.get? definition.viewRef = some d₀ ∧ d₀.digest = definition.digest

theorem Published.prepared (h : Published views b s) {definition : ViewDefinition}
    (fits : ((b.session s).views.get? definition.viewRef).any (·.digest ≠ definition.digest) = false) :
    Prepared views b s definition
      (if (b.session s).views.contains definition.viewRef then (b.session s).views
        else (b.session s).views.insert definition.viewRef definition)
      (b.sentTo s ++ b.firstUse s definition) := by
  rw [Table.contains_eq_isSome, firstUse]
  cases hget : (b.session s).views.get? definition.viewRef with
  | some d₀ =>
      rw [hget] at fits
      simp only [Option.isSome_some, if_true, List.append_nil]
      refine ⟨h.nodup, h.defines, id, fun hr => ?_, d₀, hget, by simpa using fits⟩
      obtain ⟨href, hused, hdefine⟩ := h.kept hr
      exact ⟨href, hdefine, .inl hused⟩
  | none =>
      have hnew : definition.viewRef ∉ (b.session s).views.keys := by
        rw [← Table.contains_iff_mem_keys, Table.contains_eq_isSome, hget]
        simp
      simp only [Option.isSome_none, Bool.false_eq_true, if_false]
      refine ⟨?_, ?_, fun hr => ?_, fun hr => ?_, definition, Table.get?_insert_self, rfl⟩
      · rw [Table.keys_insert_of_not_mem hnew]
        exact List.nodup_append.2 ⟨h.nodup, List.nodup_singleton _, by
          intro r hr r' hr' heq
          subst heq
          exact hnew (List.mem_singleton.1 hr' ▸ hr)⟩
      · rw [Table.keys_insert_of_not_mem hnew, definedRefs_append, h.defines, List.map_append]
        rfl
      · rw [Table.get?_insert_ne]
        · exact hr
        · intro heq
          subst heq
          rw [hget] at hr
          cases hr
      · rw [Table.get?_insert] at hr
        split at hr
        · next hrr =>
          cases hr
          exact ⟨hrr.symm, by simp [hrr], .inr rfl⟩
        · obtain ⟨href, hused, hdefine⟩ := h.kept hr
          exact ⟨href, List.mem_append_left _ hdefine, .inl hused⟩

theorem Published.enrolled {kind : Kind Code} {definition : ViewDefinition}
    (h : Published views b s) (coherent : Coherent b) (parts : Enrolled b b' s kind definition)
    (compiled : (views kind).definition.1 = .ok definition)
    (hopen : (b'.session s).isClosed = false) : Published views b' s := by
  have hnew : b'.Hosts s b.nextComponent kind :=
    ⟨.new kind s, by rw [parts.components, if_pos rfl], rfl, rfl⟩
  have hhosts : ∀ {c kind'}, b'.Hosts s c kind' →
      b.Hosts s c kind' ∨ c = b.nextComponent ∧ kind' = kind := by
    intro c kind' hhost
    obtain ⟨k, hk, hsession, hkind⟩ := hhost
    rw [parts.components] at hk
    split at hk
    · next hc =>
      cases hk
      exact .inr ⟨hc, hkind.symm⟩
    · exact .inl ⟨k, hk, hsession, hkind⟩
  have hstays : ∀ {c kind'}, b.Hosts s c kind' → b'.Hosts s c kind' := by
    intro c kind' hhost
    obtain ⟨k, hk, hsession, hkind⟩ := hhost
    exact ⟨k, by rw [parts.components, if_neg (Nat.ne_of_lt (coherent.component_lt hk)), hk],
      hsession, hkind⟩
  have huses : ∀ {d}, Uses views b s d → Uses views b' s d := by
    intro d hd
    obtain ⟨c, kind', hc, hcompiled⟩ := hd
    exact ⟨c, kind', hstays hc, hcompiled⟩
  have hviews := parts.views s
  rw [if_pos rfl] at hviews
  have hsent := parts.sent hopen
  rw [← List.append_assoc] at hsent
  have prepared := h.prepared parts.fits
  rw [← hviews] at prepared
  have hbacked : ∀ {kind' d d₀}, Backed views b s kind' d d₀ → Backed views b' s kind' d d₀ :=
    fun hb => ⟨hb.compiled, prepared.grown hb.kept, hb.digest⟩
  obtain ⟨d₀, hkept, hdigest⟩ := prepared.backed
  have hback : Backed views b' s kind definition d₀ := ⟨compiled, hkept, hdigest⟩
  have holder : b.sentTo s <+: b'.sentTo s := by
    rw [hsent, List.append_assoc]
    exact List.prefix_append _ _
  refine ⟨prepared.nodup, ?_, fun hget => ?_, fun hhost => ?_, fun {before id ref} hbefore => ?_⟩
  · rw [hsent, definedRefs_append, prepared.defines]
    exact List.append_nil _
  · obtain ⟨href, hdefine, hused⟩ := prepared.kept hget
    refine ⟨href, ?_, hsent ▸ List.mem_append_left _ hdefine⟩
    obtain hused | rfl := hused
    · exact huses hused
    · exact ⟨_, kind, hnew, compiled⟩
  · obtain hhost | ⟨rfl, rfl⟩ := hhosts hhost
    · obtain ⟨d, d₁, before, hb, hbefore⟩ := h.hosted hhost
      exact ⟨d, d₁, before, hbacked hb, hbefore.trans holder⟩
    · exact ⟨definition, d₀, b.sentTo s ++ b.firstUse s definition, hback,
        hsent ▸ List.prefix_refl _⟩
  · rw [hsent] at hbefore
    obtain heq | hbefore := List.prefix_concat_iff.1 hbefore
    · -- the frame of the new component itself
      obtain ⟨rfl, hframe⟩ := List.append_inj' heq rfl
      cases hframe
      exact ⟨kind, definition, d₀, hnew, hback, rfl, (prepared.kept hkept).2.1⟩
    · have hold := prefix_of_prefix_append hbefore fun hmem => by
        unfold firstUse at hmem
        split at hmem
        · cases hmem
        · simp at hmem
      obtain ⟨kind', d, d₁, hhost, hb, href, hdefine⟩ := h.created hold
      exact ⟨kind', d, d₁, hstays hhost, hbacked hb, href, hdefine⟩

/-! ## every act -/

/-- The components of a session are those that were there, with their kinds, unless one is created in it. -/
theorem hosts_effect (coherent : Coherent b) (effect : Effect b a b')
    (elsewhere : ∀ kind definition, a ≠ .enroll s kind definition) (c : ComponentId)
    (kind : Kind Code) : b'.Hosts s c kind ↔ b.Hosts s c kind := by
  constructor
  · intro hhost
    obtain ⟨k', hk', hsession, hkind⟩ := hhost
    obtain hold | ⟨s', kind', definition, rfl, rfl⟩ := component?_of_effect effect hk'
    · obtain ⟨k, hk⟩ := Option.isSome_iff_exists.1 hold
      obtain ⟨k'', hk'', hkind'', hsession''⟩ := component?_effect coherent effect hk
      rw [hk'] at hk''
      cases hk''
      exact ⟨k, hk, hsession''.symm.trans hsession, hkind''.symm.trans hkind⟩
    · obtain rfl : s' = s := hsession
      exact absurd rfl (elsewhere kind' definition)
  · intro hhost
    obtain ⟨k, hk, hsession, hkind⟩ := hhost
    obtain ⟨k', hk', hkind', hsession'⟩ := component?_effect coherent effect hk
    exact ⟨k', hk', hsession'.trans hsession, hkind'.trans hkind⟩

/-- Only the creation of a component in a session makes views known there. -/
theorem views_effect (coherent : Coherent b) (effect : Effect b a b')
    (elsewhere : ∀ kind definition, a ≠ .enroll s kind definition) :
    (b'.session s).views = (b.session s).views := by
  cases effect with
  | still same => exact same.views s
  | opened config channel =>
      rw [session_openSession]
      split
      · next hs =>
        -- before it is opened a session keeps no view
        have hnot : b.hasSession s = false := by
          cases hold : b.hasSession s with
          | false => rfl
          | true => exact absurd hs (Nat.ne_of_lt (coherent.session_lt hold))
        rw [session_of_not_hasSession hnot]
        rfl
      · rfl
  | sent s' m => exact (b.sameParts_send s' m).views s
  | closed s' => exact b.views_close s' s
  | skipped => rfl
  | @enrolled s' kind definition _ answer =>
      have hs : s ≠ s' := by
        intro heq
        subst heq
        exact elsewhere kind definition rfl
      rw [(b.enrolled_parts answer).views, if_neg hs]
  | @retired _ c k => exact views_retired c k s
  | @touched _ c k k' d _ _ _ told => exact (told.views s).trans ((sameParts_tell b c k' d).views s)

/-- Only the creation of a component in a session makes views or components known there. -/
theorem told_effect (effect : Effect b a b')
    (elsewhere : ∀ kind definition, a ≠ .enroll s kind definition) (unspoken : ∀ m, a ≠ .send s m) :
    ∃ more, b'.sentTo s = b.sentTo s ++ more ∧ ∀ m ∈ more, m.introduces = false := by
  have hnothing : ∀ {b' : Backend Code Store}, b'.sentTo s = b.sentTo s →
      ∃ more, b'.sentTo s = b.sentTo s ++ more ∧ ∀ m ∈ more, m.introduces = false :=
    fun hsent => ⟨[], by rw [hsent, List.append_nil], by simp⟩
  have hone : ∀ {p : Prop} [Decidable p] {m : Message}, m.introduces = false →
      ∀ m' ∈ (if p then [m] else []), m'.introduces = false := by
    intro p _ m hm m' hm'
    split at hm'
    · rwa [List.mem_singleton.1 hm']
    · cases hm'
  cases effect with
  | still same => exact hnothing (same.sent s)
  | opened => exact hnothing rfl
  | sent s' m =>
      have hs : s' ≠ s := by
        intro heq
        subst heq
        exact unspoken m rfl
      refine hnothing ?_
      rw [sentTo_send, if_neg fun hs' => hs hs'.1, List.append_nil]
  | closed s' => exact hnothing (b.sentTo_close s' s)
  | skipped => exact hnothing rfl
  | @enrolled s' kind definition _ answer =>
      have hs : s ≠ s' := by
        intro heq
        subst heq
        exact elsewhere kind definition rfl
      exact hnothing ((b.enrolled_parts answer).elsewhere s hs)
  | @retired _ c k => exact ⟨_, sentTo_retired c k s, hone rfl⟩
  | @touched _ c k k' d _ component touch told =>
      rw [told.sent]
      cases d with
      | none => exact hnothing rfl
      | some d => exact ⟨_, sentTo_tell_some b c k' d s, hone rfl⟩

/-- Every act keeps the views of a session published that is open behind it. -/
theorem Published.apply (h : Published views b s) (coherent : Coherent b) (a : Act Code Store)
    (unspoken : ∀ m, a ≠ .send s m)
    (compiled : ∀ kind definition, a = .enroll s kind definition →
      (views kind).definition.1 = .ok definition)
    (hopen : (a.apply b).hasSession s = true → ((a.apply b).session s).isClosed = false) :
    Published views (a.apply b) s := by
  by_cases henroll : ∃ kind definition, a = .enroll s kind definition
  · obtain ⟨kind, definition, rfl⟩ := henroll
    rw [Act.apply] at hopen ⊢
    obtain ⟨e, hskipped⟩ | ⟨-, -, hcreated⟩ := b.enroll_cases s kind definition
    · rw [hskipped]
      have hsent : b.takeNumber.sentTo s = b.sentTo s ++ [] := (List.append_nil _).symm
      exact h.of_same (fun _ _ => Iff.rfl) rfl hsent (by simp)
    · have parts := b.enrolled_parts (Prod.ext (by rw [hcreated]) rfl)
      refine h.enrolled coherent parts (compiled kind definition rfl) (hopen ?_)
      rw [parts.hasSession, parts.known]
  · have heffect := b.effect_apply a
    have helsewhere : ∀ kind definition, a ≠ .enroll s kind definition :=
      fun kind definition ha => henroll ⟨kind, definition, ha⟩
    obtain ⟨more, hsent, hplain⟩ := told_effect heffect helsewhere unspoken
    exact h.of_same (hosts_effect coherent heffect helsewhere) (views_effect coherent heffect helsewhere)
      hsent hplain

/-! ## whole runs -/

/-- The views of a session are published while it is open. -/
theorem published_play {store : Store} {acts pre : List (Act Code Store)}
    (unspoken : ∀ m, .send s m ∉ acts)
    (compiled : ∀ kind definition, .enroll s kind definition ∈ acts →
      (views kind).definition.1 = .ok definition) (hpre : pre <+: acts)
    (hopen : (((init store : Backend Code Store).play pre).session s).isClosed = false) :
    Published views ((init store).play pre) s := by
  refine play_induction (b := init store) (I := fun _ b =>
    (b.hasSession s = true → (b.session s).isClosed = false) → Published views b s)
    (fun _ => published_init store) ?_ hpre fun _ => hopen
  intro pre a hact h hafter
  have coherent := coherent_play store pre
  have hmem : a ∈ acts := hact.subset (by simp)
  refine (h fun hs => ?_).apply coherent a ?_ ?_ hafter
  · -- a session that is there and closed would stay so
    cases hclosed : (((init store).play pre).session s).isClosed with
    | false => rfl
    | true =>
        obtain ⟨hs', hclosed'⟩ := isClosed_effect coherent (effect_apply _ a) hs hclosed
        rw [hafter hs'] at hclosed'
        cases hclosed'
  · intro m heq
    subst heq
    exact unspoken m hmem
  · intro kind definition heq
    subst heq
    exact compiled kind definition hmem

/-! ## when texts of references are enough -/

/-- A component has one view. -/
theorem Hosts.definition_eq {c : ComponentId} {kind kind' : Kind Code} {d d' : ViewDefinition}
    (h : b.Hosts s c kind) (h' : b.Hosts s c kind') (hd : (views kind).definition.1 = .ok d)
    (hd' : (views kind').definition.1 = .ok d') : d = d' := by
  obtain ⟨k, hk, -, rfl⟩ := h
  obtain ⟨k', hk', -, rfl⟩ := h'
  rw [hk] at hk'
  cases hk'
  rw [hd] at hd'
  cases hd'
  rfl

namespace Published

variable (h : Published views b s)

include h

/-- A view in use is kept under its reference, and a component of it was made known. -/
theorem of_uses {d : ViewDefinition} (hd : Uses views b s d) :
    d.viewRef ∈ (b.session s).views.keys ∧ ∃ c kind before, b.Hosts s c kind ∧
      (views kind).definition.1 = .ok d ∧ before ++ [.create c d.viewRef.render] <+: b.sentTo s := by
  obtain ⟨c, kind, hhosts, hcompiled⟩ := hd
  obtain ⟨d', d₀, before, hback, hbefore⟩ := h.hosted hhosts
  obtain rfl := hhosts.definition_eq hhosts hcompiled hback.compiled
  refine ⟨?_, c, kind, before, hhosts, hcompiled, hbefore⟩
  rw [← Table.contains_iff_mem_keys, Table.contains_eq_isSome, hback.kept]
  rfl

/-- A view that is kept is in use. -/
theorem uses_of_mem {r : ViewRef} (hr : r ∈ (b.session s).views.keys) :
    ∃ d, Uses views b s d ∧ d.viewRef = r := by
  rw [← Table.contains_iff_mem_keys, Table.contains_eq_isSome, Option.isSome_iff_exists] at hr
  obtain ⟨d, hd⟩ := hr
  obtain ⟨href, hused, -⟩ := h.kept hd
  exact ⟨d, hused, href⟩

theorem distinguished (registered : Registered views b s) : Distinguished views b s := by
  have hkeys : ((b.session s).views.keys.map ViewRef.render).Nodup := h.defines ▸ registered.once
  -- the view of a component is told with the source of its own definition
  have htold : ∀ {d}, Uses views b s d →
      ∃ name, .define d.viewRef.render name d.source ∈ b.sentTo s := by
    intro d hd
    obtain ⟨-, c, kind, before, hhosts, hcompiled, hbefore⟩ := h.of_uses hd
    obtain ⟨-, kind', d', name, hhosts', hcompiled', hdefine⟩ := registered.defined hbefore
    obtain rfl := hhosts.definition_eq hhosts' hcompiled hcompiled'
    exact ⟨name, hbefore.subset (List.mem_append_left _ hdefine)⟩
  refine ⟨fun {d d'} hd hd' href => ?_, fun {d d'} hd hd' href _ => ?_⟩
  · exact List.inj_on_of_nodup_map hkeys (h.of_uses hd).1 (h.of_uses hd').1 href
  · obtain ⟨name, hdefine⟩ := htold hd
    obtain ⟨name', hdefine'⟩ := htold hd'
    rw [← href] at hdefine'
    exact source_eq_of_nodup registered.once hdefine hdefine'

theorem registered (apart : Distinguished views b s) : Registered views b s := by
  have honce : (definedRefs (b.sentTo s)).Nodup := by
    rw [h.defines]
    refine h.nodup.map_on fun r hr r' hr' hrender => ?_
    obtain ⟨d, hd, rfl⟩ := h.uses_of_mem hr
    obtain ⟨d', hd', rfl⟩ := h.uses_of_mem hr'
    exact apart.references hd hd' hrender
  refine ⟨honce, fun {before id ref} hbefore => ?_⟩
  obtain ⟨kind, d, d₀, hhosts, hback, rfl, hdefine⟩ := h.created hbefore
  obtain ⟨href, hused, -⟩ := h.kept hback.kept
  constructor
  · have hprefix : definedRefs before <+: definedRefs (b.sentTo s) := by
      obtain ⟨more, hmore⟩ := (List.prefix_append before _).trans hbefore
      rw [← hmore, definedRefs_append]
      exact List.prefix_append _ _
    exact List.count_eq_one_of_mem (honce.sublist hprefix.sublist)
      (mem_definedRefs.2 ⟨_, _, hdefine⟩)
  · have hsource := apart.digests hused ⟨id, kind, hhosts, hback.compiled⟩ href hback.digest
    exact ⟨kind, d, d₀.name, hhosts, hback.compiled, hsource ▸ hdefine⟩

end Published

end Backend

/-- In every run that opens a session and sends nothing by hand, at every point at which the session is
open: every view was told once under the text of its reference, before its first component, if and only if
the references in use have different texts and the digests tell their sources apart. -/
theorem registered_iff_distinguished (calls : Callbacks Code (Prog Code Store))
    (leave : Store → Store → Store) (fuel : Nat) (p : Prog Code Store α) (store : Store) {s : SessionId}
    (unspoken : ∀ m, .send s m ∉ p.course calls leave fuel store) {pre : List (Act Code Store)}
    (point : pre <+: p.course calls leave fuel store)
    (isOpen : (((Backend.init store).play pre).session s).isClosed = false) :
    Backend.Registered calls.viewOf ((Backend.init store).play pre) s ↔
      Backend.Distinguished calls.viewOf ((Backend.init store).play pre) s := by
  have published : Backend.Published calls.viewOf ((Backend.init store).play pre) s :=
    Backend.published_play unspoken (fun _ _ => compiled_of_enroll) point isOpen
  exact ⟨published.distinguished, published.registered⟩

/-! ## two views, one text -/

namespace Sample

/-- Opens a session and creates two components in it. -/
def pairing : Prog Sample Unit (Except ComponentError ComponentId) := do
  let s ← Prog.request (.openSession {} {})
  let _ ← Prog.request (.create s (.custom .list))
  Prog.request (.create s (.custom .bare))

/-- A view that all components share. -/
def shared : Sample → ViewType := fun _ => view ⟨"app", "Panel", "View"⟩ ""

/-- Views whose references have one text: a type in a module, and a module of that name. -/
def twins : Sample → ViewType
  | .list => view ⟨"app", "Panel", "View"⟩ ""
  | _ => view ⟨"app::Panel", "", "View"⟩ ""

/-- The acts of two creations. -/
def pair (views : Sample → ViewType) : List (Act Sample Unit) :=
  pairing.course (calls views) (fun _ after => after) 3 ()

/-- Whether an act is a message of the program. -/
def speaks : Act Sample Unit → Bool
  | .send .. => true
  | _ => false

theorem not_mem_of_speaks {acts : List (Act Sample Unit)} (h : acts.any speaks = false) (s : SessionId)
    (m : Message) : .send s m ∉ acts := by
  intro hmem
  have hany : acts.any speaks = true := List.any_eq_true.2 ⟨_, hmem, rfl⟩
  rw [h] at hany
  cases hany

/-- Two components with the shared view use that view alone. -/
theorem uses_shared {d : ViewDefinition}
    (h : Backend.Uses (calls shared).viewOf ((Backend.init ()).play (pair shared)) 1 d) :
    d = ⟨⟨"app", "Panel", "View"⟩, "View", [], "", ""⟩ := by
  obtain ⟨c, _, ⟨k, hk, -, rfl⟩, hd⟩ := h
  have hlt : c < 3 := (Backend.coherent_play () (pair shared)).component_lt hk
  match c, hlt, hk with
  | 0, _, hk => cases hk
  | 1, _, hk =>
      cases hk
      cases hd
      rfl
  | 2, _, hk =>
      cases hk
      cases hd
      rfl

end Sample

/-- With a shared view both components are made known as they should be; with twins the same text is told
twice. -/
theorem registered_shared_not_twins :
    Backend.Registered (Sample.calls Sample.shared).viewOf
        ((Backend.init ()).play (Sample.pair Sample.shared)) 1 ∧
      ¬ Backend.Registered (Sample.calls Sample.twins).viewOf
        ((Backend.init ()).play (Sample.pair Sample.twins)) 1 := by
  have hshared := registered_iff_distinguished (Sample.calls Sample.shared) (fun _ after => after) 3
    Sample.pairing () (Sample.not_mem_of_speaks (by decide) 1) (List.prefix_refl _) (by decide)
  have htwins := registered_iff_distinguished (Sample.calls Sample.twins) (fun _ after => after) 3
    Sample.pairing () (Sample.not_mem_of_speaks (by decide) 1) (List.prefix_refl _) (by decide)
  constructor
  · refine hshared.2 ⟨fun hd hd' _ => ?_, fun hd hd' _ _ => ?_⟩
    · rw [Sample.uses_shared hd, Sample.uses_shared hd']
    · rw [Sample.uses_shared hd, Sample.uses_shared hd']
  · intro hregistered
    have hlist : Backend.Uses (Sample.calls Sample.twins).viewOf
        ((Backend.init ()).play (Sample.pair Sample.twins)) 1
        ⟨⟨"app", "Panel", "View"⟩, "View", [], "", ""⟩ :=
      ⟨1, .custom .list, ⟨_, rfl, rfl, rfl⟩, rfl⟩
    have hbare : Backend.Uses (Sample.calls Sample.twins).viewOf
        ((Backend.init ()).play (Sample.pair Sample.twins)) 1
        ⟨⟨"app::Panel", "", "View"⟩, "View", [], "", ""⟩ :=
      ⟨2, .custom .bare, ⟨_, rfl, rfl, rfl⟩, rfl⟩
    have href := (htwins.1 hregistered).references hlist hbare (by decide)
    exact absurd href (by decide)

end ViewSync
