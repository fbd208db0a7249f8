import ViewSync.Proofs.Parser.Seams

/-!
# ViewSync.Proofs.Parser.Skipping

What is skipped, token by token. A line is skipped up to its end, and a block up to the end that belongs to its start
(`depthBehind` counts the blocks that are open); so a clause is skipped with the block that hangs on it
(`skipClause_done`), whatever stands in it.
-/

namespace ViewSync.Parser

open ParseState

variable {s : ParseState} {line more tokens : List Token} {depth depth' : Nat}

/-! ## lines -/

theorem loopUpTo_skipLineStep (hline : ∀ t ∈ line, t.kind.isLayout = false) (hrest : s.rest = line ++ more)
    (hends : endsLine (more.headD s.eof).kind = true) {bound : Nat} (hbound : line.length < bound) (span : Span) :
    ∃ u, loopUpTo skipLineStep bound span s = .done ((line.getLast?.map (·.span)).getD span) u ∧ u.Behind s more := by
  induction line generalizing s bound span with
  | nil =>
      obtain ⟨bound, rfl⟩ := Nat.exists_eq_succ_of_ne_zero (Nat.ne_of_gt hbound)
      have hpeek : endsLine s.peek.kind = true := by
        rw [ParseState.peek, hrest]
        exact hends
      have hround : skipLineStep span s = .done (.inr span) s := by
        unfold skipLineStep
        rw [bind_apply]
        simp only [kind, hpeek]
        rfl
      exact ⟨s, loopUpTo_inr hround, .refl hrest⟩
  | cons t rest ih =>
      obtain ⟨bound, rfl⟩ := Nat.exists_eq_succ_of_ne_zero (Nat.ne_of_gt (Nat.zero_lt_of_lt hbound))
      obtain ⟨hword, hwords⟩ := List.forall_mem_cons.1 hline
      have hgoes : endsLine t.kind = false := by
        generalize t.kind = k at hword
        cases k <;> first | rfl | cases hword
      have hpeek : s.peek = t := by rw [ParseState.peek, hrest]; rfl
      have hround : skipLineStep span s = .done (.inl t.span) s.advance := by
        unfold skipLineStep
        rw [bind_apply]
        simp only [kind, hpeek, hgoes]
        rw [← hpeek]
        rfl
      have hbehind := behind_advance hrest
      obtain ⟨u, hdone, hu⟩ := ih hwords hbehind.rest (hbehind.eof ▸ hends) (Nat.lt_of_succ_lt_succ hbound) t.span
      refine ⟨u, ?_, hbehind.trans hu⟩
      rw [loopUpTo_inl hround, hdone]
      cases rest <;> rfl

/-- A line is skipped up to its end. -/
theorem skipLine_done (hline : ∀ t ∈ line, t.kind.isLayout = false) (hrest : s.rest = line ++ more)
    (hends : endsLine (more.headD s.eof).kind = true) :
    ∃ u, skipLine s = .done ((line.getLast?.map (·.span)).getD s.peek.span) u ∧ u.Behind s more := by
  have hbound : line.length < s.rest.length + 1 := by
    rw [hrest, List.length_append]
    omega
  exact loopUpTo_skipLineStep hline hrest hends hbound s.peek.span

/-! ## blocks -/

/-- How many blocks are open behind some tokens, if the first block goes on behind them. -/
def depthBehind : Nat → List TokenKind → Option Nat
  | depth, [] => some depth
  | depth, .indent :: rest => depthBehind (depth + 1) rest
  | depth, .dedent :: rest => if depth ≤ 1 then none else depthBehind (depth - 1) rest
  | _, .eof :: _ => none
  | depth, _ :: rest => depthBehind depth rest

/-- A token that neither opens nor closes a block does not count. -/
theorem depthBehind_cons {k : TokenKind} (hindent : k ≠ .indent) (hdedent : k ≠ .dedent) (heof : k ≠ .eof) (depth : Nat)
    (rest : List TokenKind) : depthBehind depth (k :: rest) = depthBehind depth rest := by
  cases k <;> first | rfl | contradiction

theorem depthBehind_append (depth : Nat) (front back : List TokenKind) :
    depthBehind depth (front ++ back) = (depthBehind depth front).bind fun depth => depthBehind depth back := by
  induction front generalizing depth with
  | nil => rfl
  | cons k rest ih =>
      by_cases hindent : k = .indent
      · subst hindent
        exact ih (depth + 1)
      by_cases hdedent : k = .dedent
      · subst hdedent
        show (if depth ≤ 1 then none else depthBehind (depth - 1) (rest ++ back)) =
          (if depth ≤ 1 then none else depthBehind (depth - 1) rest).bind _
        split
        · rfl
        · exact ih (depth - 1)
      by_cases heof : k = .eof
      · subst heof
        rfl
      rw [List.cons_append, depthBehind_cons hindent hdedent heof, depthBehind_cons hindent hdedent heof, ih]

/-- Words do not count, nor does the end of a line. -/
theorem depthBehind_of_words {kinds : List TokenKind} (h : ∀ k ∈ kinds, k.isLayout = false ∨ k = .newline)
    (depth : Nat) :
    depthBehind depth kinds = some depth := by
  induction kinds with
  | nil => rfl
  | cons k rest ih =>
      obtain ⟨hk, hrest⟩ := List.forall_mem_cons.1 h
      have hskipped : depthBehind depth (k :: rest) = depthBehind depth rest := by
        rcases hk with hk | rfl
        · cases k <;> first | rfl | cases hk
        · rfl
      rw [hskipped, ih hrest]

/-- How skipping goes on behind a token of some kind. -/
def skipBehind (depth : Nat) : TokenKind → Parser (Nat ⊕ Unit)
  | .indent => pure (.inl (depth + 1))
  | .dedent => if depth ≤ 1 then pure (.inr ()) else pure (.inl (depth - 1))
  | .eof => pure (.inr ())
  | _ => pure (.inl depth)

theorem skipStep_eq (depth : Nat) (s : ParseState) : skipStep depth s = skipBehind depth s.peek.kind s.advance := rfl

/-- As many tokens as there are cost as many rounds. -/
theorem loopUpTo_skipStep (hdepth : depthBehind depth (tokens.map (·.kind)) = some depth')
    (hrest : s.rest = tokens ++ more) : ∃ u, u.Behind s more ∧ ∀ bound, loopUpTo skipStep bound depth s =
      if tokens.length ≤ bound then loopUpTo skipStep (bound - tokens.length) depth' u else .exhausted := by
  induction tokens generalizing s depth with
  | nil =>
      cases hdepth
      exact ⟨s, .refl hrest, fun bound => rfl⟩
  | cons t rest ih =>
      have hpeek : s.peek = t := by rw [ParseState.peek, hrest]; rfl
      have hbehind := behind_advance hrest
      have hround : ∃ next, skipStep depth s = .done (.inl next) s.advance ∧
          depthBehind next (rest.map (·.kind)) = some depth' := by
        rw [List.map_cons] at hdepth
        rw [skipStep_eq, hpeek]
        by_cases hindent : t.kind = .indent
        · rw [hindent] at hdepth ⊢
          exact ⟨depth + 1, rfl, hdepth⟩
        by_cases hdedent : t.kind = .dedent
        · rw [hdedent] at hdepth ⊢
          simp only [depthBehind] at hdepth
          split at hdepth
          · cases hdepth
          · rename_i hdeep
            refine ⟨depth - 1, ?_, hdepth⟩
            rw [skipBehind, if_neg hdeep]
            rfl
        by_cases heof : t.kind = .eof
        · rw [heof] at hdepth
          cases hdepth
        rw [depthBehind_cons hindent hdedent heof] at hdepth
        refine ⟨depth, ?_, hdepth⟩
        cases hkind : t.kind <;> first | rfl | contradiction
      obtain ⟨next, hround, hnext⟩ := hround
      obtain ⟨u, hu, hloop⟩ := ih hnext hbehind.rest
      refine ⟨u, hbehind.trans hu, fun bound => ?_⟩
      cases bound with
      | zero => rfl
      | succ bound =>
          rw [loopUpTo_inl hround, hloop bound]
          simp only [List.length_cons, Nat.add_le_add_iff_right, Nat.add_sub_add_right]

/-- A block is skipped up to the end that belongs to its start. -/
theorem skipIndented_done {opening closing : Token} (hopening : opening.kind = .indent)
    (hclosing : closing.kind = .dedent)
    (hdepth : depthBehind 1 (tokens.map (·.kind)) = some 1) (hrest : s.rest = opening :: (tokens ++ closing :: more)) :
    ∃ u, skipIndented s = .done () u ∧ u.Behind s more := by
  have hopened : depthBehind 0 ((opening :: tokens).map (·.kind)) = some 1 := by
    rw [List.map_cons, hopening]
    exact hdepth
  obtain ⟨u, hu, hloop⟩ := @loopUpTo_skipStep s (closing :: more) _ _ _ hopened hrest
  have hpeek : u.peek = closing := by rw [ParseState.peek, hu.rest]; rfl
  have hround : skipStep 1 u = .done (.inr ()) u.advance := by
    rw [skipStep_eq, hpeek, hclosing]
    rfl
  have hroom : (opening :: tokens).length ≤ s.rest.length + 1 := by
    simp only [hrest, List.length_cons, List.length_append]
    omega
  refine ⟨u.advance, ?_, hu.trans (behind_advance hu.rest)⟩
  rw [skipIndented_eq, loop, hloop, if_pos hroom]
  have hfuel : s.rest.length + 1 - (opening :: tokens).length = more.length + 1 + 1 := by
    simp only [hrest, List.length_cons, List.length_append]
    omega
  rw [hfuel, loopUpTo_inr hround]

/-! ## clauses -/

/-- What hangs on a line: nothing, or a block. -/
inductive Hanging : List TokenKind → Prop where
  | nothing : Hanging []
  | block {kinds : List TokenKind} : depthBehind 1 kinds = some 1 → Hanging (.indent :: (kinds ++ [.dedent]))

/-- A line is skipped with its end and with what hangs on it. -/
theorem skipClause_done {newline : Token} {block : List Token} (hline : ∀ t ∈ line, t.kind.isLayout = false)
    (hnewline : newline.kind = .newline) (hblock : Hanging (block.map (·.kind)))
    (hmore : (more.headD s.eof).kind ≠ .indent) (hrest : s.rest = line ++ newline :: (block ++ more)) :
    ∃ u, skipClause s = .done ((line.getLast?.map (·.span)).getD s.peek.span) u ∧ u.Behind s more := by
  obtain ⟨u, hskip, hu⟩ := skipLine_done hline hrest (show endsLine newline.kind = true by rw [hnewline]; rfl)
  have hnext : u.peek.kind = .newline := by
    rw [ParseState.peek, hu.rest]
    exact hnewline
  have hbehind := hu.trans (behind_advance hu.rest)
  have hclause : skipClause s = (do
      if ← check .indent then skipIndented
      return (line.getLast?.map Token.span).getD s.peek.span) u.advance := by
    unfold skipClause
    rw [bind_apply, hskip]
    exact eat_bind_of_eq hnext _
  rw [hclause, bind_apply]
  simp only [check]
  generalize hkinds : block.map (·.kind) = kinds at hblock
  cases hblock with
  | nothing =>
      cases List.map_eq_nil_iff.1 hkinds
      have hother : (u.advance.peek.kind == .indent) = false := by
        rw [ParseState.peek, hbehind.rest, hbehind.eof]
        exact beq_false_of_ne hmore
      rw [hother]
      exact ⟨u.advance, rfl, hbehind⟩
  | block hdepth =>
      obtain ⟨opening, rest, rfl, hopening, hrest'⟩ := List.map_eq_cons_iff.1 hkinds
      obtain ⟨tokens, ending, rfl, htokens, hending⟩ := List.map_eq_append_iff.1 hrest'
      obtain ⟨closing, rfl, hclosing⟩ := List.map_eq_singleton_iff.1 hending
      have hstart : u.advance.rest = opening :: (tokens ++ closing :: more) := by
        rw [hbehind.rest]
        simp
      obtain ⟨v, hdone, hv⟩ := skipIndented_done hopening hclosing (htokens ▸ hdepth) hstart
      have hindent : (u.advance.peek.kind == .indent) = true := by
        rw [ParseState.peek, hstart]
        exact beq_iff_eq.2 hopening
      refine ⟨v, ?_, hbehind.trans hv⟩
      rw [hindent, if_pos rfl, bind_apply, hdone]
      rfl

/-- A line with its end, and what hangs on it. -/
inductive Clause : List TokenKind → Prop where
  | mk {line block : List TokenKind} : (∀ k ∈ line, k.isLayout = false) → Hanging block →
      Clause (line ++ .newline :: block)

theorem Clause.skipped (h : Clause (tokens.map (·.kind))) (hmore : (more.headD s.eof).kind ≠ .indent)
    (hrest : s.rest = tokens ++ more) : ∃ span u, skipClause s = .done span u ∧ u.Behind s more := by
  generalize hkinds : tokens.map (·.kind) = kinds at h
  obtain ⟨hline, hblock⟩ := h
  obtain ⟨line, rest, rfl, hline', hrest'⟩ := List.map_eq_append_iff.1 hkinds
  obtain ⟨newline, block, rfl, hnewline, hblock'⟩ := List.map_eq_cons_iff.1 hrest'
  rw [← hline'] at hline
  rw [← hblock'] at hblock
  rw [List.append_assoc, List.cons_append] at hrest
  obtain ⟨u, hdone, hu⟩ := skipClause_done (fun t ht => hline _ (List.mem_map_of_mem ht)) hnewline hblock hmore hrest
  exact ⟨_, u, hdone, hu⟩

/-! ### inside of blocks -/

variable {kinds : List TokenKind}

/-- More blocks around do not matter. -/
theorem depthBehind_add (more : Nat) (h : depthBehind depth kinds = some depth') :
    depthBehind (depth + more) kinds = some (depth' + more) := by
  induction kinds generalizing depth with
  | nil =>
      cases h
      rfl
  | cons k rest ih =>
      by_cases hindent : k = .indent
      · subst hindent
        have hopened := ih h
        rwa [Nat.add_right_comm] at hopened
      by_cases hdedent : k = .dedent
      · subst hdedent
        have hdeep : ¬ depth ≤ 1 := by
          intro hle
          rw [depthBehind, if_pos hle] at h
          cases h
        rw [depthBehind, if_neg hdeep] at h
        rw [depthBehind, if_neg (by omega), Nat.sub_add_comm (by omega)]
        exact ih h
      by_cases heof : k = .eof
      · subst heof
        cases h
      rw [depthBehind_cons hindent hdedent heof] at h ⊢
      exact ih h

theorem Hanging.depthBehind_eq (h : Hanging kinds) (depth : Nat) :
    depthBehind (depth + 1) kinds = some (depth + 1) := by
  cases h with
  | nothing => rfl
  | block hdepth =>
      have hinside := depthBehind_add (depth + 1) hdepth
      rw [Nat.add_comm 1] at hinside
      show depthBehind (depth + 1 + 1) _ = _
      rw [depthBehind_append, hinside]
      show (if depth + 1 + 1 ≤ 1 then none else some (depth + 1)) = some (depth + 1)
      exact if_neg (by omega)

theorem Clause.depthBehind_eq (h : Clause kinds) (depth : Nat) : depthBehind (depth + 1) kinds = some (depth + 1) := by
  obtain ⟨hline, hblock⟩ := h
  rw [depthBehind_append, depthBehind_of_words fun k hk => .inl (hline k hk)]
  exact hblock.depthBehind_eq depth

end ViewSync.Parser

/-! ## two stretches that are skipped -/

namespace ViewSync

namespace ParseState

variable {drop : Span → Bool} {s s' u u' : ParseState} {more more' back back' : List Token}

theorem Level.behind (h : Level s s') (hu : u.Behind s more) (hu' : u'.Behind s' more') : Level u u' :=
  ⟨hu.eof ▸ h.eof, hu'.eof ▸ h.eof', hu.depth.trans h.depth, hu'.depth.trans h.depth', hu.faults.trans h.clean,
    hu'.faults.trans h.clean'⟩

/-- What stands behind two stretches: tokens of the same kinds, in which all refused statements are kept. -/
structure Alike (drop : Span → Bool) (back back' : List Token) : Prop where
  kinds : back'.map (·.kind) = back.map (·.kind)
  kept : Kept drop 0 back
  /-- They do not go on with a block. -/
  closed : (back.map (·.kind)).head? ≠ some .indent

theorem Level.past (hs : Level s s') (hu : u.Behind s back) (hu' : u'.Behind s' back')
    (hkinds : back'.map (·.kind) = back.map (·.kind)) (hkept : Kept drop 0 back) : Past drop u u' :=
  ⟨hs.behind hu hu', by rw [hu.rest, hu'.rest, hkinds], hu.rest ▸ hkept⟩

theorem Alike.past (h : Alike drop back back') (hs : Level s s') (hu : u.Behind s back) (hu' : u'.Behind s' back') :
    Past drop u u' :=
  hs.past hu hu' h.kinds h.kept

theorem headD_ne_indent (h : (back.map (·.kind)).head? ≠ some .indent) (hs : s.eof.kind = .eof) :
    (back.headD s.eof).kind ≠ .indent := by
  cases back with
  | nil =>
      rw [List.headD_nil, hs]
      exact nofun
  | cons t rest => exact fun heq => h (congrArg some heq)

end ParseState

namespace Parser

open ParseState

variable {drop : Span → Bool} {used used' back back' : List Token}

theorem agrees_skip (hkinds : back'.map (·.kind) = back.map (·.kind)) (hkept : Kept drop 0 back) {depth : Nat}
    (hused : depthBehind (depth + 1) (used.map (·.kind)) = some (depth + 1))
    (hused' : depthBehind (depth + 1) (used'.map (·.kind)) = some (depth + 1)) (bound bound' : Nat) :
    Agrees 0 (AtSeam (used ++ back) (used' ++ back')) (loopUpTo skipStep bound (depth + 1))
      (loopUpTo skipStep bound' (depth + 1)) Any (Past drop) := by
  intro s s' t a hs hdone hholds hne
  obtain ⟨u, hu, hloop⟩ := loopUpTo_skipStep hused hs.rest
  obtain ⟨u', hu', hloop'⟩ := loopUpTo_skipStep hused' hs.rest'
  rw [hloop] at hdone
  rw [hloop'] at hne ⊢
  split at hdone
  · rename_i hroom
    split at hne
    · obtain ⟨a', t', hdone', ha, ht⟩ := ((pair_past drop).skipInside _ _ depth).agrees
        (.inl (hs.toLevel.past hu hu' hkinds hkept)) hdone hholds hne
      rw [if_pos ‹_›]
      exact ⟨a', t', hdone', ha, ht.resolve_right id⟩
    · exact absurd rfl hne
  · cases hdone

theorem agrees_skipClause (hback : Alike drop back back') (hused : Clause (used.map (·.kind)))
    (hused' : Clause (used'.map (·.kind))) :
    Agrees 0 (AtSeam (used ++ back) (used' ++ back')) skipClause skipClause Any (Past drop) := by
  intro s s' t a hs hdone hholds hne
  obtain ⟨span, u, hskip, hu⟩ := hused.skipped (headD_ne_indent hback.closed hs.eof) hs.rest
  obtain ⟨span', u', hskip', hu'⟩ := hused'.skipped (headD_ne_indent (hback.kinds ▸ hback.closed) hs.eof') hs.rest'
  cases hskip.symm.trans hdone
  exact ⟨span', u', hskip', rfl, hback.past hs.toLevel hu hu'⟩

end Parser

end ViewSync
