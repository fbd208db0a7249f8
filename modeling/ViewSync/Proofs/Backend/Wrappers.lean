import Mathlib.Data.List.Induction
import Mathlib.Data.List.Nodup
import ViewSync.Proofs.Backend.Still

/-!
# ViewSync.Proofs.Backend.Wrappers

The use of wrappers as it is seen from outside. What happens under one name of a session is a row of
engagements, each of one instance that is entered and then exited; the last one may still last.

* `running` — the engagements that have begun and not ended, read off what was seen;
* `Wired` — the engaged instances that a session keeps are those, and under each name they take turns;
* `Wired.engage`, `rewired_releaseAll` — what engaging and releasing keep of that.
-/

namespace ViewSync

variable {Code Store : Type}

/-! ## what is seen of wrappers -/

/-- What happens to an instance under the name of its wrapper. -/
inductive WrapperUse where
  | entered (name : String) (instance_ : InstanceId)
  | exited (name : String) (instance_ : InstanceId)
deriving DecidableEq, Repr

/-- The name under which an instance is used. -/
def WrapperUse.name : WrapperUse → String
  | .entered name _ => name
  | .exited name _ => name

/-- The use of a wrapper that an event shows in a session. -/
def Event.useIn? (s : SessionId) : Event → Option WrapperUse
  | .entered s' name instance_ _ => if s' = s then some (.entered name instance_) else none
  | .exited s' name instance_ _ => if s' = s then some (.exited name instance_) else none
  | _ => none

/-- The uses of wrappers in a session, in order. -/
def Backend.uses (b : Backend Code Store) (s : SessionId) : List WrapperUse :=
  b.trace.filterMap (Event.useIn? s)

/-- The engagements that have begun and not ended, in the order in which they began. -/
def running (uses : List WrapperUse) : List (String × InstanceId) :=
  uses.foldl (fun engaged use =>
    match use with
    | .entered name instance_ => engaged ++ [(name, instance_)]
    | .exited name instance_ => engaged.erase (name, instance_)) []

/-- An engagement from its beginning to its end: one entrance and one exit. -/
def engagement (name : String) (instance_ : InstanceId) : List WrapperUse :=
  [.entered name instance_, .exited name instance_]

@[simp] theorem running_append_entered (uses : List WrapperUse) (name : String)
    (instance_ : InstanceId) :
    running (uses ++ [.entered name instance_]) = running uses ++ [(name, instance_)] := by
  simp [running]

@[simp] theorem running_append_exited (uses : List WrapperUse) (name : String)
    (instance_ : InstanceId) :
    running (uses ++ [.exited name instance_]) = (running uses).erase (name, instance_) := by
  simp [running]

/-! ## lists of entries with different keys -/

section

variable {α β : Type} {f : α → β} {before after : List α} {x : α}

/-- The keys around an entry differ from each other and from its key. -/
theorem nodup_around (nodup : ((before ++ x :: after).map f).Nodup) :
    ((before ++ after).map f).Nodup ∧ ∀ y ∈ before ++ after, f y ≠ f x := by
  rw [List.map_append, List.map_cons, List.nodup_middle, List.nodup_cons, ← List.map_append] at nodup
  exact ⟨nodup.2, fun y hy heq => nodup.1 (List.mem_map.2 ⟨y, hy, heq⟩)⟩

/-- Without the key of one of its entries a list has just that one less. -/
theorem filter_ne_middle [DecidableEq β] (nodup : ((before ++ x :: after).map f).Nodup) :
    (before ++ x :: after).filter (fun y => f y ≠ f x) = before ++ after := by
  have hkeep : (before ++ after).filter (fun y => f y ≠ f x) = before ++ after :=
    List.filter_eq_self.2 fun y hy => by simpa using (nodup_around nodup).2 y hy
  rw [List.filter_append] at hkeep
  rw [List.filter_append, List.filter_cons_of_neg (by simp), hkeep]

/-- The entries with the key of one of them are just that one. -/
theorem filter_eq_middle [DecidableEq β] (nodup : ((before ++ x :: after).map f).Nodup) :
    (before ++ x :: after).filter (fun y => f y = f x) = [x] := by
  have hrest : (before ++ after).filter (fun y => f y = f x) = [] :=
    List.filter_eq_nil_iff.2 fun y hy => by simpa using (nodup_around nodup).2 y hy
  rw [List.filter_append, List.append_eq_nil_iff] at hrest
  simp [hrest]

end

/-! ## engagements that take turns -/

/-- The engaged instances are those whose engagement has begun and not ended. Under each name engagements
follow each other, and all but the one that lasts have ended. -/
structure Wired (engaged : List (String × InstanceId)) (uses : List WrapperUse) : Prop where
  nodup : (engaged.map (·.1)).Nodup
  running : running uses = engaged
  turns : ∀ name, ∃ past : List InstanceId, uses.filter (·.name = name) =
    past.flatMap (engagement name) ++
      (engaged.filter (·.1 = name)).map fun e => .entered e.1 e.2

namespace Wired

variable {engaged : List (String × InstanceId)} {uses : List WrapperUse} {name : String}
  {instance_ : InstanceId}

theorem nil : Wired [] [] :=
  ⟨.nil, rfl, fun _ => ⟨[], rfl⟩⟩

/-- A name that is engaged is engaged once. -/
theorem filter_of_mem (h : Wired engaged uses) (hname : name ∈ engaged.map (·.1)) :
    ∃ instance_, engaged.filter (·.1 = name) = [(name, instance_)] := by
  obtain ⟨e, he, rfl⟩ := List.mem_map.1 hname
  obtain ⟨before, after, rfl⟩ := List.append_of_mem he
  exact ⟨e.2, filter_eq_middle h.nodup⟩

/-- An instance is entered under a name that is free. -/
theorem entered (h : Wired engaged uses) (free : name ∉ engaged.map (·.1)) :
    Wired (engaged ++ [(name, instance_)]) (uses ++ [.entered name instance_]) where
  nodup := by
    rw [List.map_append, List.nodup_append]
    refine ⟨h.nodup, List.nodup_singleton _, ?_⟩
    intro x hx y hy hxy
    rw [List.map_singleton, List.mem_singleton] at hy
    rw [hxy, hy] at hx
    exact free hx
  running := by rw [running_append_entered, h.running]
  turns name' := by
    obtain ⟨past, hpast⟩ := h.turns name'
    refine ⟨past, ?_⟩
    rw [List.filter_append, hpast, List.append_assoc, List.filter_append, List.map_append]
    by_cases hname : name = name' <;> simp [WrapperUse.name, hname]

/-- An engaged instance is exited. -/
theorem exited {before after : List (String × InstanceId)}
    (h : Wired (before ++ (name, instance_) :: after) uses) :
    Wired (before ++ after) (uses ++ [.exited name instance_]) := by
  obtain ⟨hnodup, hnone⟩ := nodup_around h.nodup
  refine ⟨hnodup, ?_, fun name' => ?_⟩
  · have hbefore : (name, instance_) ∉ before := fun hmem =>
      hnone _ (List.mem_append_left _ hmem) rfl
    rw [running_append_exited, h.running, List.erase_append_right _ hbefore, List.erase_cons_head]
  · obtain ⟨past, hpast⟩ := h.turns name'
    by_cases hname : name = name'
    · -- the engagement that lasted is over
      subst hname
      have hrest : (before ++ after).filter (·.1 = name) = [] :=
        List.filter_eq_nil_iff.2 fun e he => by simpa using hnone e he
      have hlast := filter_eq_middle h.nodup
      refine ⟨past ++ [instance_], ?_⟩
      rw [List.filter_append, hpast, hlast, hrest]
      simp [WrapperUse.name, engagement]
    · refine ⟨past, ?_⟩
      rw [List.filter_append, hpast]
      simp [WrapperUse.name, hname]

/-- The engaged instances are exited, the last one first. -/
theorem exitedAll (h : Wired engaged uses) :
    Wired [] (uses ++ engaged.reverse.map fun e => .exited e.1 e.2) := by
  induction engaged using List.reverseRecOn generalizing uses with
  | nil => simpa using h
  | append_singleton engaged e ih =>
      have hlast : Wired (engaged ++ (e.1, e.2) :: []) uses := h
      replace hlast := hlast.exited
      rw [List.append_nil] at hlast
      simpa using ih hlast

end Wired

/-! ## tables of engaged instances -/

namespace Table

variable {V : Type} {t : Table String V} {k : String} {v : V}

/-- Where a key is, and what is left without it. -/
theorem entries_of_get? (nodup : t.keys.Nodup) (h : t.get? k = some v) :
    ∃ before after, t.entries = before ++ (k, v) :: after ∧ (t.erase k).entries = before ++ after := by
  obtain ⟨e, hfind, rfl⟩ := Option.map_eq_some_iff.1 h
  obtain ⟨hk, before, after, hentries, -⟩ := List.find?_eq_some_iff_append.1 hfind
  obtain rfl : e.1 = k := by simpa using hk
  rw [keys, hentries] at nodup
  refine ⟨before, after, hentries, ?_⟩
  rw [erase, hentries]
  exact filter_ne_middle nodup

/-- Without a key that is not there a table is as before. -/
theorem erase_of_get?_eq_none (h : t.get? k = none) : t.erase k = t := by
  rw [get?, Option.map_eq_none_iff, List.find?_eq_none] at h
  have hall : t.entries.filter (·.1 ≠ k) = t.entries :=
    List.filter_eq_self.2 fun e he => by simpa using h e he
  rw [erase, hall]

theorem mem_keys_erase {k' : String} : k' ∈ (t.erase k).keys ↔ k' ∈ t.keys ∧ k' ≠ k := by
  simp only [keys, erase, List.mem_map, List.mem_filter]
  constructor
  · intro h
    obtain ⟨e, ⟨he, hne⟩, rfl⟩ := h
    exact ⟨⟨e, he, rfl⟩, by simpa using hne⟩
  · intro h
    obtain ⟨⟨e, he, rfl⟩, hne⟩ := h
    exact ⟨e, ⟨he, by simpa using hne⟩, rfl⟩

/-- A key that was taken out goes to the end when it comes back. -/
theorem entries_insert_erase : ((t.erase k).insert k v).entries = (t.erase k).entries ++ [(k, v)] := by
  have hout : (t.erase k).contains k = false := by
    rw [contains_eq_isSome, get?_erase_self]
    rfl
  rw [insert, hout]
  rfl

end Table

namespace Wired

variable {engaged : Table String InstanceId} {uses : List WrapperUse}

/-- What is seen when the instance under a name is exited, if there is one. -/
def exits (engaged : Table String InstanceId) (name : String) : List WrapperUse :=
  (engaged.get? name).toList.map (.exited name)

theorem releaseNamed (h : Wired engaged.entries uses) (name : String) :
    Wired (engaged.erase name).entries (uses ++ exits engaged name) := by
  cases hget : engaged.get? name with
  | none => simpa [exits, hget, Table.erase_of_get?_eq_none hget] using h
  | some instance_ =>
      obtain ⟨before, after, hentries, herase⟩ := Table.entries_of_get? h.nodup hget
      rw [hentries] at h
      rw [herase, exits, hget]
      exact h.exited

/-- A wrapper is engaged; before that, what was left engaged under its name is released. -/
theorem engage (h : Wired engaged.entries uses) (name : String) (instance_ : InstanceId) :
    Wired ((engaged.erase name).insert name instance_).entries
      (uses ++ exits engaged name ++ [.entered name instance_]) := by
  rw [Table.entries_insert_erase]
  refine (h.releaseNamed name).entered fun hmem => ?_
  exact (Table.mem_keys_erase.1 hmem).2 rfl

end Wired

/-! ## wrappers of a session -/

namespace Backend

variable (b : Backend Code Store)

@[simp] theorem uses_record (s : SessionId) (e : Event) :
    (b.record e).uses s = b.uses s ++ (e.useIn? s).toList := by
  cases h : e.useIn? s <;> simp [record, uses, h]

/-- A session whose wrapper is engaged is there. -/
theorem hasSession_of_engaged {s : SessionId} {name : String} {instance_ : InstanceId}
    (h : (b.session s).engaged.get? name = some instance_) : b.hasSession s = true := by
  cases hs : b.hasSession s with
  | true => rfl
  | false =>
      rw [session_of_not_hasSession hs] at h
      cases h

theorem session_releaseNamed (s s' : SessionId) (name : String) :
    (b.releaseNamed s name).session s' =
      if s' = s then { b.session s with engaged := (b.session s).engaged.erase name }
      else b.session s' := by
  unfold releaseNamed
  split
  · next hget =>
    rw [Table.erase_of_get?_eq_none hget]
    split
    · next hs => rw [hs]
    · rfl
  · next instance_ hget =>
    refine (b.session_modifySession s s' _).trans ?_
    simp only [b.hasSession_of_engaged hget, and_true]

theorem uses_releaseNamed (s s' : SessionId) (name : String) :
    (b.releaseNamed s name).uses s' =
      b.uses s' ++ if s' = s then Wired.exits (b.session s).engaged name else [] := by
  unfold releaseNamed
  split
  · next hget => simp [Wired.exits, hget]
  · next instance_ hget =>
    refine (uses_record _ s' _).trans ?_
    rw [show (b.modifySession s _).uses s' = b.uses s' from rfl]
    by_cases hs : s' = s
    · simp [Event.useIn?, Wired.exits, hget, hs]
    · simp [Event.useIn?, hs, Ne.symm hs]

theorem session_instanceOf (source : WrapperSource) (s : SessionId) :
    (b.instanceOf source).2.session s = b.session s := by
  cases source <;> rfl

theorem uses_instanceOf (source : WrapperSource) (s : SessionId) :
    (b.instanceOf source).2.uses s = b.uses s := by
  cases source with
  | ready instance_ => rfl
  | factory label => exact (uses_record _ s _).trans (List.append_nil _)

/-- The instance that engaging a wrapper would enter. -/
def nextInstance (s : SessionId) (name : String) (source : WrapperSource) : InstanceId :=
  ((b.releaseNamed s name).instanceOf source).1

/-- An engagement step by step. -/
theorem engage_eq (s : SessionId) (name : String) (source : WrapperSource) :
    b.engage s name source =
      (((b.releaseNamed s name).instanceOf source).2.enterInstance s name
        (b.nextInstance s name source)).modifySession s fun session =>
          { session with engaged := session.engaged.insert name (b.nextInstance s name source) } := rfl

theorem session_engage {s : SessionId} (known : b.hasSession s = true) (s' : SessionId) (name : String)
    (source : WrapperSource) :
    (b.engage s name source).session s' =
      if s' = s then
        { b.session s with
          engaged := ((b.session s).engaged.erase name).insert name (b.nextInstance s name source) }
      else b.session s' := by
  have hstill := (((Still.refl b).releaseNamed s name).instanceOf source).enterInstance s name
    (b.nextInstance s name source)
  have hsession : ∀ s', ((((b.releaseNamed s name).instanceOf source).2.enterInstance s name
      (b.nextInstance s name source)).session s') = (b.releaseNamed s name).session s' :=
    session_instanceOf (b.releaseNamed s name) source
  rw [engage_eq, session_modifySession, hstill.hasSession, hsession, hsession, session_releaseNamed,
    session_releaseNamed, if_pos rfl]
  by_cases hs : s' = s <;> simp [hs, known]

theorem uses_engage (s s' : SessionId) (name : String) (source : WrapperSource) :
    (b.engage s name source).uses s' = b.uses s' ++
      if s' = s then
        Wired.exits (b.session s).engaged name ++ [.entered name (b.nextInstance s name source)]
      else [] := by
  have huses := (uses_instanceOf (b.releaseNamed s name) source s').trans
    (b.uses_releaseNamed s s' name)
  rw [engage_eq]
  refine ((uses_record _ s' _).trans (congrArg (· ++ _) huses)).trans ?_
  by_cases hs : s' = s
  · simp [Event.useIn?, hs]
  · simp [Event.useIn?, hs, Ne.symm hs]

/-! ## engaging and releasing -/

/-- Of one session the wrappers that are engaged may differ, and what was seen of them; nothing else of
activations does. -/
structure Rewired (s : SessionId) (b b' : Backend Code Store) : Prop where
  guards : b'.guards = b.guards
  stack : b'.stack = b.stack
  nextGuard : b'.nextGuard = b.nextGuard
  depth : (b'.session s).depth = (b.session s).depth
  wrappers : (b'.session s).wrappers = (b.session s).wrappers
  elsewhere : ∀ s', s' ≠ s → b'.session s' = b.session s' ∧ b'.uses s' = b.uses s'
  wired : Wired (b.session s).engaged.entries (b.uses s) →
    Wired (b'.session s).engaged.entries (b'.uses s)

variable {b} {s : SessionId}

namespace Rewired

theorem refl (s : SessionId) (b : Backend Code Store) : Rewired s b b :=
  ⟨rfl, rfl, rfl, rfl, rfl, fun _ _ => ⟨rfl, rfl⟩, id⟩

theorem trans {b' b'' : Backend Code Store} (h : Rewired s b b') (h' : Rewired s b' b'') :
    Rewired s b b'' where
  guards := h'.guards.trans h.guards
  stack := h'.stack.trans h.stack
  nextGuard := h'.nextGuard.trans h.nextGuard
  depth := h'.depth.trans h.depth
  wrappers := h'.wrappers.trans h.wrappers
  elsewhere s' hs :=
    ⟨(h'.elsewhere s' hs).1.trans (h.elsewhere s' hs).1, (h'.elsewhere s' hs).2.trans (h.elsewhere s' hs).2⟩
  wired := h'.wired ∘ h.wired

end Rewired

theorem rewired_releaseNamed (s : SessionId) (name : String) : Rewired s b (b.releaseNamed s name) where
  guards := by
    unfold releaseNamed
    split <;> rfl
  stack := by
    unfold releaseNamed
    split <;> rfl
  nextGuard := by
    unfold releaseNamed
    split <;> rfl
  depth := by rw [session_releaseNamed, if_pos rfl]
  wrappers := by rw [session_releaseNamed, if_pos rfl]
  elsewhere s' hs := by
    rw [session_releaseNamed, uses_releaseNamed, if_neg hs, if_neg hs, List.append_nil]
    exact ⟨rfl, rfl⟩
  wired h := by
    rw [session_releaseNamed, uses_releaseNamed, if_pos rfl, if_pos rfl]
    exact h.releaseNamed name

theorem rewired_engage (known : b.hasSession s = true) (name : String) (source : WrapperSource) :
    Rewired s b (b.engage s name source) where
  guards := by
    rw [engage_eq]
    cases source <;> exact (rewired_releaseNamed s name).guards
  stack := by
    rw [engage_eq]
    cases source <;> exact (rewired_releaseNamed s name).stack
  nextGuard := by
    rw [engage_eq]
    cases source <;> exact (rewired_releaseNamed s name).nextGuard
  depth := by rw [session_engage b known, if_pos rfl]
  wrappers := by rw [session_engage b known, if_pos rfl]
  elsewhere s' hs := by
    rw [session_engage b known, uses_engage, if_neg hs, if_neg hs, List.append_nil]
    exact ⟨rfl, rfl⟩
  wired h := by
    rw [session_engage b known, uses_engage, if_pos rfl, if_pos rfl, ← List.append_assoc]
    exact h.engage name _

/-- A wrapper that was engaged is, and so are those that were engaged before. -/
theorem mem_engaged_engage (known : b.hasSession s = true) {name name' : String}
    {source : WrapperSource} (h : name' = name ∨ name' ∈ (b.session s).engaged.keys) :
    name' ∈ ((b.engage s name source).session s).engaged.keys := by
  rw [session_engage b known, if_pos rfl, Table.keys, Table.entries_insert_erase, List.map_append,
    List.mem_append]
  by_cases hname : name' = name
  · exact .inr (by simp [hname])
  · exact .inl (Table.mem_keys_erase.2 ⟨h.resolve_left hname, hname⟩)

/-- The wrappers of a session are engaged one after another. -/
theorem rewired_engageAll (known : b.hasSession s = true) :
    Rewired s b (b.engageAll s) ∧
      ∀ name ∈ (b.session s).wrappers.keys, name ∈ ((b.engageAll s).session s).engaged.keys := by
  unfold engageAll Table.keys
  generalize (b.session s).wrappers.entries = entries
  suffices hall : ∀ entries : List (String × WrapperSource), ∀ b : Backend Code Store,
      b.hasSession s = true →
      Rewired s b (entries.foldl (fun b e => b.engage s e.1 e.2) b) ∧
        ∀ name, (name ∈ entries.map (·.1) ∨ name ∈ (b.session s).engaged.keys) →
          name ∈ ((entries.foldl (fun b e => b.engage s e.1 e.2) b).session s).engaged.keys by
    obtain ⟨hrewired, hkeys⟩ := hall entries b known
    exact ⟨hrewired, fun name hname => hkeys name (.inl hname)⟩
  intro entries
  induction entries with
  | nil => exact fun b _ => ⟨.refl s b, fun name h => h.resolve_left (by simp)⟩
  | cons e entries ih =>
      intro b known
      have hknown : (b.engage s e.1 e.2).hasSession s = true :=
        (((Still.refl b).engage s e.1 e.2).hasSession s).trans known
      obtain ⟨hrewired, hkeys⟩ := ih (b.engage s e.1 e.2) hknown
      refine ⟨(rewired_engage known e.1 e.2).trans hrewired, fun name h => hkeys name ?_⟩
      rw [List.map_cons, List.mem_cons, or_assoc] at h
      obtain rfl | h | h := h
      · exact .inr (mem_engaged_engage known (.inl rfl))
      · exact .inl h
      · exact .inr (mem_engaged_engage known (.inr h))

/-- Behind the release of all wrappers no instance is engaged, and those that were have been exited, the
last one first. -/
theorem releaseAll_eq (b : Backend Code Store) (s : SessionId) :
    ((b.releaseAll s).session s).engaged.entries = [] ∧
      (b.releaseAll s).uses s =
        b.uses s ++ (b.session s).engaged.entries.reverse.map (fun e => .exited e.1 e.2) ∧
      (b.releaseAll s).guards = b.guards ∧ (b.releaseAll s).stack = b.stack ∧
      (b.releaseAll s).nextGuard = b.nextGuard ∧
      (∀ s', (b.releaseAll s).session s' =
        (b.modifySession s fun session => { session with engaged := .empty }).session s') ∧
      ∀ s', s' ≠ s → (b.releaseAll s).uses s' = b.uses s' := by
  have hfold : ∀ (entries : List (String × InstanceId)) (b : Backend Code Store),
      ∃ trace, entries.foldl (fun b e => b.exitInstance s e.1 e.2) b = { b with trace := trace } ∧
        trace.filterMap (Event.useIn? s) = b.uses s ++ entries.map (fun e => .exited e.1 e.2) ∧
        ∀ s', s' ≠ s → trace.filterMap (Event.useIn? s') = b.uses s' := by
    intro entries
    induction entries with
    | nil => exact fun b => ⟨b.trace, rfl, (List.append_nil _).symm, fun _ _ => rfl⟩
    | cons e entries ih =>
        intro b
        obtain ⟨trace, hfold, hhere, hthere⟩ := ih (b.exitInstance s e.1 e.2)
        refine ⟨trace, hfold, ?_, fun s' hs => ?_⟩
        · rw [hhere, exitInstance, uses_record]
          simp [Event.useIn?]
        · rw [hthere s' hs, exitInstance, uses_record]
          simp [Event.useIn?, Ne.symm hs]
  obtain ⟨trace, heq, hhere, hthere⟩ := hfold (b.session s).engaged.entries.reverse
    (b.modifySession s fun session => { session with engaged := .empty })
  have hall : b.releaseAll s = _ := heq
  rw [hall]
  refine ⟨?_, hhere, rfl, rfl, rfl, fun _ => rfl, hthere⟩
  show ((b.modifySession s _).session s).engaged.entries = []
  rw [session_modifySession]
  split
  · rfl
  · next hs =>
    rw [session_of_not_hasSession (by simpa using hs)]
    rfl

theorem rewired_releaseAll (b : Backend Code Store) (s : SessionId) : Rewired s b (b.releaseAll s) := by
  obtain ⟨hnone, huses, hguards, hstack, hnext, hsession, hthere⟩ := b.releaseAll_eq s
  refine ⟨hguards, hstack, hnext, ?_, ?_, fun s' hs => ⟨?_, hthere s' hs⟩, fun h => ?_⟩
  · rw [hsession]
    refine session_modifySession_of (·.depth) ?_ s
    exact fun _ => rfl
  · rw [hsession]
    refine session_modifySession_of (·.wrappers) ?_ s
    exact fun _ => rfl
  · rw [hsession, session_modifySession, if_neg fun h => hs h.1]
  · rw [hnone, huses]
    exact h.exitedAll

end Backend

end ViewSync
