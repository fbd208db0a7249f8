import ViewSync.Proofs.Backend.Activation

/-!
# ViewSync.Proofs.Backend.Current

The current session. It should be that of the innermost activation, the one that began last of those that
last. The stack keeps sessions and not activations, though: when an activation ends, the innermost entry of
its session goes, whichever activation that entry came from.

* `stack_perm` — each session is on the stack as often as it is activated;
* `InTurn` — the end of an activation that takes away an entry of its own, or one that cannot be told apart;
* `current_innermost_iff` — the current session follows the activations just as long as these end in turn.
-/

namespace ViewSync

variable {Code Store : Type}

namespace Backend

/-- The session of the innermost activation. -/
def innermost? (b : Backend Code Store) : Option SessionId :=
  b.guards.getLast?.map (·.session)

/-- Ends so many activations, the innermost one first. -/
def unwind (b : Backend Code Store) : Nat → Backend Code Store
  | 0 => b
  | n + 1 =>
    match b.guards.getLast? with
    | some guard => (b.leave guard).unwind n
    | none => b

/-- The current session is that of the innermost activation, and stays so while activations end from the
innermost one outwards. -/
def Follows (b : Backend Code Store) : Prop :=
  ∀ n, (b.unwind n).current? = (b.unwind n).innermost?

end Backend

/-- The activation that an act ends. -/
def Act.ends? (b : Backend Code Store) : Act Code Store → Option Guard
  | .exit id => (b.guards.find? (·.id = id)).filter (·.held)
  | .leave id => b.guards.find? (·.id = id)
  | _ => none

/-- No activation of another session began between an activation and the innermost one of its session. -/
def InTurn (guards : List Guard) (guard : Guard) : Prop :=
  ∃ before mid after, guards = before ++ guard :: (mid ++ after) ∧
    (∀ g ∈ mid, g.session = guard.session) ∧ ∀ g ∈ after, g.session ≠ guard.session

/-! ## stacks -/

section

variable {s : SessionId} {before mid after : List SessionId}

/-- The innermost entry of a session goes. -/
theorem eraseLast_of_not_mem (h : s ∉ after) : Backend.eraseLast s (before ++ s :: after) = before ++ after := by
  have hreverse : s ∉ after.reverse := by simpa using h
  simp [Backend.eraseLast, List.erase_append_right _ hreverse]

theorem eraseLast_perm (stack : List SessionId) : (Backend.eraseLast s stack).Perm (stack.erase s) :=
  (List.reverse_perm _).trans ((List.reverse_perm stack).erase s)

/-- An entry moves from one end of a list to the other just when the list has no other entries. -/
theorem cons_eq_append_singleton_iff : s :: mid = mid ++ [s] ↔ ∀ x ∈ mid, x = s := by
  induction mid with
  | nil => simp
  | cons y mid ih =>
      rw [List.cons_append, List.cons.injEq, List.forall_mem_cons, eq_comm (a := y), ← ih]
      refine and_congr_right fun hy => ?_
      rw [← hy]

/-- The entry that goes cannot be told from a given one of the session just when no other session is in
between. -/
theorem eraseLast_eq_iff : Backend.eraseLast s (before ++ s :: after) = before ++ after ↔
    ∃ mid rest, after = mid ++ rest ∧ (∀ x ∈ mid, x = s) ∧ s ∉ rest := by
  constructor
  · intro herase
    by_cases hmem : s ∈ after
    · obtain ⟨rest, mid, hreverse, hrest⟩ := List.eq_append_cons_of_mem (List.mem_reverse.2 hmem)
      obtain rfl : after = mid.reverse ++ s :: rest.reverse := by
        rw [← List.reverse_reverse after, hreverse]
        simp
      have hlast : s ∉ rest.reverse := by simpa using hrest
      rw [← List.cons_append, ← List.append_assoc, eraseLast_of_not_mem hlast] at herase
      have hmoved : s :: mid.reverse = mid.reverse ++ [s] :=
        (List.append_left_inj rest.reverse).1 (by simpa using herase)
      refine ⟨mid.reverse ++ [s], rest.reverse, by simp, fun x hx => ?_, hlast⟩
      obtain hx | hx := List.mem_append.1 hx
      · exact cons_eq_append_singleton_iff.1 hmoved x hx
      · exact List.mem_singleton.1 hx
    · exact ⟨[], after, rfl, fun x hx => absurd hx List.not_mem_nil, hmem⟩
  · rintro ⟨mid, rest, rfl, hmid, hrest⟩
    rw [← List.cons_append, cons_eq_append_singleton_iff.2 hmid, List.append_assoc, List.singleton_append,
      ← List.append_assoc, eraseLast_of_not_mem hrest, List.append_assoc]

end

namespace Backend

variable {b b' : Backend Code Store} {a : Act Code Store} {guard : Guard}

/-! ## one act -/

theorem guards_engage (b : Backend Code Store) (s : SessionId) (name : String) (source : WrapperSource) :
    (b.engage s name source).guards = b.guards ∧ (b.engage s name source).stack = b.stack := by
  have hreleased := rewired_releaseNamed (b := b) s name
  rw [engage_eq]
  cases source <;> exact ⟨hreleased.guards, hreleased.stack⟩

/-- Wrappers come and go without an effect on activations. -/
theorem guards_addWrapper (b : Backend Code Store) (s : SessionId) (name : String) (source : WrapperSource) :
    (b.afterTry (b.addWrapper s name source)).guards = b.guards ∧
      (b.afterTry (b.addWrapper s name source)).stack = b.stack := by
  unfold addWrapper
  dsimp only
  split
  · exact ⟨rfl, rfl⟩
  · dsimp only [afterTry]
    split
    · exact guards_engage (b.rearranged s (·.insert name source)) s name source
    · exact ⟨rfl, rfl⟩

theorem guards_removeWrapper (b : Backend Code Store) (s : SessionId) (name : String) (exitNow : Bool) :
    (b.afterTry (b.removeWrapper s name exitNow)).guards = b.guards ∧
      (b.afterTry (b.removeWrapper s name exitNow)).stack = b.stack := by
  unfold removeWrapper
  split
  · dsimp only [afterTry]
    split
    · have hreleased := rewired_releaseNamed (b := b.rearranged s (·.erase name)) s name
      exact ⟨hreleased.guards, hreleased.stack⟩
    · exact ⟨rfl, rfl⟩
  · exact ⟨rfl, rfl⟩

/-- What an act does to activations: it ends one that lasts, it begins one, or it does neither. -/
theorem activations_apply (coherent : Coherent b) (a : Act Code Store) :
    (∃ guard ∈ b.guards, a.ends? b = some guard ∧ a.apply b = b.leave guard) ∨
      a.ends? b = none ∧
        ((∃ guard, (a.apply b).guards = b.guards ++ [guard] ∧
            (a.apply b).stack = b.stack ++ [guard.session]) ∨
          (a.apply b).guards = b.guards ∧ (a.apply b).stack = b.stack) := by
  cases ha : a.activates with
  | false =>
      have hsame := sameActivity_apply coherent ha
      refine .inr ⟨?_, .inr ⟨hsame.guards, hsame.stack⟩⟩
      cases a <;> first | rfl | cases ha
  | true =>
      cases a with
      | enter s held =>
          have hrewired := b.rewired_enter s held
          exact .inr ⟨rfl, .inl ⟨⟨b.nextGuard, s, held⟩, hrewired.guards, hrewired.stack⟩⟩
      | exit id =>
          simp only [Act.ends?, Act.apply, Backend.exit]
          cases hfind : b.guards.find? (·.id = id) with
          | none => exact .inr ⟨rfl, .inr ⟨rfl, rfl⟩⟩
          | some guard =>
              cases hheld : guard.held with
              | true =>
                  refine .inl ⟨guard, List.mem_of_find?_eq_some hfind, ?_, ?_⟩
                  · simp [hheld]
                  · simp [hheld]
              | false => exact .inr ⟨by simp [hheld], .inr ⟨by simp [hheld], by simp [hheld]⟩⟩
      | leave id =>
          simp only [Act.ends?, Act.apply, Backend.leaveNumber]
          cases hfind : b.guards.find? (·.id = id) with
          | none => exact .inr ⟨rfl, .inr ⟨rfl, rfl⟩⟩
          | some guard => exact .inl ⟨guard, List.mem_of_find?_eq_some hfind, rfl, rfl⟩
      | addWrapper s name source => exact .inr ⟨rfl, .inr (b.guards_addWrapper s name source)⟩
      | removeWrapper s name exitNow => exact .inr ⟨rfl, .inr (b.guards_removeWrapper s name exitNow)⟩
      | _ => cases ha

theorem stack_leave (b : Backend Code Store) (guard : Guard) :
    (b.leave guard).stack = eraseLast guard.session b.stack := by
  rw [leave_eq]
  show eraseLast guard.session (b.released guard.session).stack = _
  rw [(b.rewired_released guard.session).stack]
  rfl

theorem numbered_play (store : Store) (acts : List (Act Code Store)) :
    Numbered ((init store : Backend Code Store).play acts) := by
  refine play_induction (I := fun _ b => Numbered b) (numbered_init store) ?_ (List.prefix_refl acts)
  intro pre a _ hbefore
  exact hbefore.turn (turn_apply (coherent_play store pre) a)

/-! ## the sessions on the stack -/

/-- Each session is on the stack as often as it is activated. -/
theorem stack_perm (store : Store) (acts : List (Act Code Store)) :
    ((init store).play acts).stack.Perm (((init store).play acts).guards.map (·.session)) := by
  refine play_induction (b := init store) (I := fun _ b => b.stack.Perm (b.guards.map (·.session)))
    .nil ?_ (List.prefix_refl acts)
  intro pre a _ hbefore
  generalize hb : (init store).play pre = b at hbefore
  have hnumbered : Numbered b := hb ▸ numbered_play store pre
  obtain ⟨guard, hmem, -, happly⟩ | ⟨-, ⟨guard, hguards, hstack⟩ | ⟨hguards, hstack⟩⟩ :=
    activations_apply (hb ▸ coherent_play store pre) a
  · obtain ⟨before, after, hguards, hleft⟩ := guards_leave hnumbered hmem
    rw [happly, stack_leave, hleft]
    refine (eraseLast_perm _).trans ?_
    refine (hbefore.erase guard.session).trans ?_
    rw [hguards, List.map_append, List.map_cons, List.map_append]
    have hmiddle : (before.map (·.session) ++ guard.session :: after.map (·.session)).Perm
        (guard.session :: (before.map (·.session) ++ after.map (·.session))) := List.perm_middle
    refine (hmiddle.erase guard.session).trans ?_
    rw [List.erase_cons_head]
  · rw [hguards, hstack, List.map_append]
    exact hbefore.append_right _
  · rw [hguards, hstack]
    exact hbefore

/-! ## activations that end in turn -/

/-- When an activation ends, the stack still has the sessions of those that last just when it ends in
turn. -/
theorem stack_leave_iff (numbered : Numbered b) (lasts : guard ∈ b.guards)
    (agrees : b.stack = b.guards.map (·.session)) :
    (b.leave guard).stack = (b.leave guard).guards.map (·.session) ↔ InTurn b.guards guard := by
  have hsplit {before after : List Guard} (hguards : b.guards = before ++ guard :: after) :
      (b.leave guard).stack = (b.leave guard).guards.map (·.session) ↔
        ∃ mid rest, after.map (·.session) = mid ++ rest ∧ (∀ x ∈ mid, x = guard.session) ∧
          guard.session ∉ rest := by
    rw [stack_leave, guards_leave_split numbered hguards, agrees, hguards, List.map_append, List.map_append,
      List.map_cons, eraseLast_eq_iff]
  constructor
  · intro h
    obtain ⟨before, after, hguards⟩ := List.append_of_mem lasts
    obtain ⟨mid, rest, hafter, hmid, hrest⟩ := (hsplit hguards).1 h
    obtain ⟨mid, rest, rfl, rfl, rfl⟩ := List.map_eq_append_iff.1 hafter
    exact ⟨before, mid, rest, hguards, fun g hg => hmid _ (List.mem_map_of_mem hg),
      fun g hg heq => hrest (List.mem_map.2 ⟨g, hg, heq⟩)⟩
  · rintro ⟨before, mid, rest, hguards, hmid, hrest⟩
    exact (hsplit hguards).2 ⟨mid.map (·.session), rest.map (·.session), List.map_append, by simpa using hmid,
      by simpa using hrest⟩

/-- When the innermost activation ends, the innermost entry of its session goes. -/
theorem leave_last (numbered : Numbered b) (hlast : b.guards.getLast? = some guard) :
    b.guards = (b.leave guard).guards ++ [guard] ∧
      (b.stack = b.guards.map (·.session) →
        (b.leave guard).stack = (b.leave guard).guards.map (·.session)) := by
  obtain ⟨before, hguards⟩ := List.getLast?_eq_some_iff.1 hlast
  have hleft : (b.leave guard).guards = before := by
    simpa using guards_leave_split numbered hguards
  refine ⟨hleft.symm ▸ hguards, fun hagrees => ?_⟩
  rw [stack_leave_iff numbered (List.mem_of_getLast? hlast) hagrees]
  exact ⟨before, [], [], hguards, fun _ h => absurd h List.not_mem_nil, fun _ h => absurd h List.not_mem_nil⟩

/-- The current session follows the activations just when the stack has their sessions in their order. -/
theorem follows_iff (numbered : Numbered b) : Follows b ↔ b.stack = b.guards.map (·.session) := by
  constructor
  · intro hfollows
    induction hsize : b.guards.length generalizing b with
    | zero =>
        have hguards := List.length_eq_zero_iff.1 hsize
        have hstack : b.stack.getLast? = none := by
          simpa [unwind, current?, innermost?, hguards] using hfollows 0
        rw [List.getLast?_eq_none_iff.1 hstack, hguards, List.map_nil]
    | succ size ih =>
        obtain ⟨guard, hlast⟩ : ∃ guard, b.guards.getLast? = some guard := by
          cases hlast : b.guards.getLast? with
          | none => simp [List.getLast?_eq_none_iff.1 hlast] at hsize
          | some guard => exact ⟨guard, rfl⟩
        obtain ⟨hguards, -⟩ := leave_last numbered hlast
        have hleft : Follows (b.leave guard) := by
          intro n
          simpa [unwind, hlast] using hfollows (n + 1)
        have hstack : b.stack.getLast? = some guard.session := by
          simpa [unwind, current?, innermost?, hlast] using hfollows 0
        obtain ⟨rest, hstack⟩ := List.getLast?_eq_some_iff.1 hstack
        have hrest := ih (numbered.leave (List.mem_of_getLast? hlast)) hleft (by
          rw [hguards] at hsize
          simpa using hsize)
        rw [stack_leave, hstack, eraseLast_of_not_mem List.not_mem_nil, List.append_nil] at hrest
        rw [hstack, hrest, hguards]
        simp
  · intro hagrees n
    induction n generalizing b with
    | zero => simp [unwind, current?, innermost?, hagrees]
    | succ n ih =>
        cases hlast : b.guards.getLast? with
        | none =>
            have hguards := List.getLast?_eq_none_iff.1 hlast
            simp [unwind, current?, innermost?, hagrees, hguards]
        | some guard =>
            have hleft := ih (numbered.leave (List.mem_of_getLast? hlast))
              ((leave_last numbered hlast).2 hagrees)
            simpa [unwind, hlast] using hleft

end Backend

/-- The current session in every sequence of acts. There is one just while there are activations, and each
session is on the stack as often as it is activated. At every point, and however the activations of that
point end from the innermost one outwards, it is the session of the innermost activation, just when every
activation so far ended in turn. -/
theorem current_innermost_iff (store : Store) (acts : List (Act Code Store)) :
    (∀ pre, pre <+: acts →
      let b := (Backend.init store).play pre
      (b.current? = none ↔ b.guards = []) ∧
        ∀ s, b.stack.count s = b.guards.countP (·.session = s)) ∧
    ((∀ pre, pre <+: acts → ((Backend.init store).play pre).Follows) ↔
      ∀ pre a guard, pre ++ [a] <+: acts → a.ends? ((Backend.init store).play pre) = some guard →
        InTurn ((Backend.init store).play pre).guards guard) := by
  refine ⟨fun pre _ => ?_, fun hfollows pre a guard hpre hends => ?_, fun hturns pre hpre => ?_⟩
  · have hperm := Backend.stack_perm store pre
    refine ⟨?_, fun s => ?_⟩
    · rw [Backend.current?, List.getLast?_eq_none_iff]
      constructor
      · intro hstack
        rw [hstack] at hperm
        exact List.map_eq_nil_iff.1 hperm.nil_eq.symm
      · intro hguards
        rw [hguards] at hperm
        exact hperm.eq_nil
    · rw [hperm.count_eq, List.count, List.countP_map]
      exact List.countP_congr fun guard _ => by simp
  · have hnumbered := Backend.numbered_play store pre
    have hagrees := (Backend.follows_iff hnumbered).1 (hfollows pre ((List.prefix_append _ _).trans hpre))
    obtain ⟨guard', hmem, hends', happly⟩ | ⟨hnone, -⟩ :=
      Backend.activations_apply (Backend.coherent_play store pre) a
    · obtain rfl : guard' = guard := Option.some.inj (hends'.symm.trans hends)
      have hlater := (Backend.follows_iff (Backend.numbered_play store (pre ++ [a]))).1 (hfollows _ hpre)
      rw [Backend.play_append, Backend.play_cons, Backend.play_nil, happly] at hlater
      exact (Backend.stack_leave_iff hnumbered hmem hagrees).1 hlater
    · simp [hnone] at hends
  · refine (Backend.follows_iff (Backend.numbered_play store pre)).2 ?_
    refine Backend.play_induction (b := Backend.init store)
      (I := fun _ b => b.stack = b.guards.map (·.session)) rfl ?_ hpre
    intro pre a hpre hagrees
    obtain ⟨guard, hmem, hends, happly⟩ | ⟨-, ⟨guard, hguards, hstack⟩ | ⟨hguards, hstack⟩⟩ :=
      Backend.activations_apply (Backend.coherent_play store pre) a
    · rw [happly]
      exact (Backend.stack_leave_iff (Backend.numbered_play store pre) hmem hagrees).2
        (hturns pre a guard hpre hends)
    · rw [hguards, hstack, hagrees, List.map_append]
      rfl
    · rw [hguards, hstack, hagrees]

namespace Sample

/-- Two sessions, the first of them entered around the second; its first activation ends. -/
def crossing : List (Act Unit Unit) :=
  [.openSession {} {}, .openSession {} {}, .enter 1 true, .enter 2 true, .enter 1 true, .exit 0]

end Sample

/-- The activation that began last of those that last is one of the first session, and the second is
current. -/
theorem crossing_not_innermost :
    ((Backend.init ()).play Sample.crossing).innermost? = some 1 ∧
      ((Backend.init ()).play Sample.crossing).current? = some 2 ∧
      ¬ ∀ pre a guard, pre ++ [a] <+: Sample.crossing → a.ends? ((Backend.init ()).play pre) = some guard →
        InTurn ((Backend.init ()).play pre).guards guard := by
  refine ⟨by decide, by decide, fun hturns => ?_⟩
  have hfollows := (current_innermost_iff () Sample.crossing).2.2 hturns _ (List.prefix_refl _) 0
  exact absurd hfollows (by decide)

end ViewSync
